import SuperGlue.Guarantees.FileLiveness

/-!
# Sizes and offsets

A run in which `twmeta` sets no offset behind the end of the file, recovers no file that another torrent is further
in than the oldest record goes, and in which only the last torrent of a file deletes it, keeps every size below what
is allocated and every offset below the size. Its assertions hold.
-/
namespace SuperGlue.Guarantees.FileOffsets
open Nat Option Lib.FiniteMap Lib.Transition Source.UniqMap.Names Source.Ramfs.Tree Source.Ramfs.Server FileChanges FileTree
  FileLiveness

/-- What a call of `twmeta` has to keep to. -/
def Fits (s : State) (td : Nat) (key val : Str) (t : Torrent) (f : Fsobj) : Prop :=
  (metaKey key = some .offset → 0 ≤ atoi val ∧ atoi val ≤ f.size) ∧
    (metaKey key = some .data → ∀ id ∈ s.tiduniq td, ∀ r ∈ (s.records id).getLast?,
      s.torrents.All fun td' u => td' ≠ td → u.data = t.data → u.offset ≤ r.offset + r.len)

def measured (s : State) : Label → Prop
  | .tmerge td tdInto => sole s (.tmerge td tdInto)
  | .twmeta td key klen val vlen _ =>
    key.length = klen → val.length = vlen → ∀ t ∈ s.torrents.get td, ∀ f ∈ s.obj t.data, Fits s td key val t f
  | _ => True

theorem measured_sole (s : State) (label : Label) (allowed : measured s label) : sole s label := by
  cases label with
  | tmerge => exact allowed
  | tsplit | twritep | treadp | twmeta | trelease | reboot => trivial

/-! ## Blocks -/

theorem le_newSz (n : Nat) : n ≤ newSz n := by
  unfold newSz
  split <;> omega

/-- A file without data has no block. -/
def Solid (f : Fsobj) : Prop := f.size ≤ f.allocated ∧ (f.data = false → f.allocated = 0)

/-- The records leave the size where the oldest of them ends. -/
theorem replay_solid {f f' : Fsobj} {offset offset' : Nat} {records : List Record} (solid : Solid f)
    (replayed : replay f offset records = .ok (f', offset')) : Solid f' ∧ (records = [] ∧ f' = f ∧ offset' = offset ∨
      ∃ r, records.getLast? = some r ∧ f'.size = r.offset + r.len ∧ offset' = r.offset) := by
  induction records generalizing f offset with
  | nil =>
    cases replayed
    exact ⟨solid, .inl ⟨rfl, rfl, rfl⟩⟩
  | cons r rest ih =>
    -- the file after this record, and what the others make of it
    have next : ∀ g : Fsobj, replay g r.offset rest = .ok (f', offset') → g.size = r.offset + r.len → Solid g →
        Solid f' ∧ (r :: rest = [] ∧ f' = f ∧ offset' = offset ∨
          ∃ r', (r :: rest).getLast? = some r' ∧ f'.size = r'.offset + r'.len ∧ offset' = r'.offset) := by
      intro g replayed size solid'
      obtain ⟨final, none_ | ⟨r', last, result⟩⟩ := ih solid' replayed
      · obtain ⟨rfl, rfl, rfl⟩ := none_
        exact ⟨final, .inr ⟨r, rfl, size, rfl⟩⟩
      · refine ⟨final, .inr ⟨r', ?_, result⟩⟩
        rw [List.getLast?_cons, last]
        rfl
    simp only [replay] at replayed
    split at replayed
    next inside => exact next _ replayed rfl ⟨inside, solid.2⟩
    split at replayed
    · cases replayed
    next room =>
      push Not at room
      exact next _ replayed rfl ⟨room.2, by simp⟩

/-- A write keeps what the file has, and ends inside of it. -/
theorem makeRoom_solid {f f' : Fsobj} {offset sz ret : Nat} {memory : Bool} (solid : Solid f) (below : offset ≤ f.size)
    (room : makeRoom f offset sz memory = some (f', ret)) : Solid f' ∧ f.size ≤ f'.size ∧ offset + ret ≤ f'.size := by
  obtain ⟨fits, empty⟩ := solid
  unfold makeRoom at room
  split at room
  next inside =>
    cases room
    refine ⟨⟨?_, empty⟩, ?_, ?_⟩ <;> dsimp only <;> omega
  split at room
  · cases room
  · cases room
    have larger := le_newSz f.allocated
    refine ⟨⟨?_, nofun⟩, ?_, ?_⟩ <;> dsimp only <;> omega

/-! ## The invariant -/

structure Measured (s : State) : Prop where
  held : Held s
  solid : ∀ a f, s.obj a = some f → Solid f
  offset : ∀ td t f, s.torrents.get td = some t → s.obj t.data = some f → t.offset ≤ f.size
  sound : s.failed ≠ some .bounds

section Invariant
variable {s s' : State}

theorem Measured.bounded (measured : Measured s) : Bounded s :=
  ⟨fun a f known => (measured.solid a f known).1, measured.offset⟩

/-- A torrent and its file change, such that the other torrents of the file stay inside. -/
theorem Measured.edit {td : Nat} {t t' : Torrent} {f' : Fsobj} (measured : Measured s) (held : Held s')
    (objects : s'.obj = Function.update s.obj t.data (some f'))
    (torrents : s'.torrents.get = Function.update s.torrents.get td (some t')) (failed : s'.failed = s.failed)
    (same : t'.data = t.data) (solid : Solid f') (inside : t'.offset ≤ f'.size)
    (others : ∀ td' u, s.torrents.get td' = some u → td' ≠ td → u.data = t.data → u.offset ≤ f'.size) :
    Measured s' := by
  refine ⟨held, ?_, ?_, failed ▸ measured.sound⟩
  · intro a g found
    rw [objects] at found
    obtain ⟨-, rfl⟩ | ⟨-, found⟩ := update_known found
    · exact solid
    · exact measured.solid a g found
  · intro td' u g found at_
    rw [objects] at at_
    rw [torrents] at found
    obtain ⟨rfl, rfl⟩ | ⟨other, found⟩ := update_known found
    · rw [same, Function.update_self] at at_
      cases at_
      exact inside
    · obtain ⟨on, rfl⟩ | ⟨-, at_⟩ := update_known at_
      · exact others td' u found other on
      · exact measured.offset td' u g found at_

theorem cosInit_measured (uniq : NameMap) (records : Nat → List Record) : Measured (cosInit uniq records) := by
  refine ⟨cosInit_held uniq records, ?_, ?_, nofun⟩
  · intro a f known
    rw [(cosInit_obj known).2]
    exact ⟨le_refl 0, fun _ => rfl⟩
  · intro td t f opened _
    rw [(cosInit_torrents opened).2]
    exact zero_le _

/-- The files and the offsets are those of another state. -/
theorem Measured.sub (measured : Measured s) (held : Held s') (failed : s'.failed = s.failed)
    (objects : ∀ a f, s'.obj a = some f → (∃ g, s.obj a = some g ∧ f.size = g.size ∧ f.allocated = g.allocated ∧
      f.data = g.data) ∨ (∀ td t, s.torrents.get td = some t → t.data ≠ a) ∧ Solid f)
    (torrents : ∀ td t, s'.torrents.get td = some t → s.torrents.get td = some t ∨ t.offset = 0) : Measured s' := by
  refine ⟨held, ?_, ?_, failed ▸ measured.sound⟩
  · intro a f known
    rcases objects a f known with ⟨g, found, size, allocated, data⟩ | ⟨-, solid⟩
    · have solid := measured.solid a g found
      unfold Solid at solid ⊢
      rwa [size, allocated, data]
    · exact solid
  · intro td t f opened known
    rcases torrents td t opened with opened | start
    · rcases objects t.data f known with ⟨g, found, size, -⟩ | ⟨unused, -⟩
      · rw [size]
        exact measured.offset td t g opened found
      · exact absurd rfl (unused td t opened)
    · omega

theorem Measured.change {label : Label} (inv : Measured s) (change : Change measured label s s') : Measured s' := by
  have held : Held s' := inv.held.change measured_sole change
  cases change with
  | quiet | identifies | records => exact ⟨held, inv.solid, inv.offset, inv.sound⟩
  | fails fault excused =>
    refine ⟨held, inv.solid, inv.offset, ?_⟩
    intro fails
    exact excused.bounds (some.inj fails) inv.bounded
  | reboots => exact cosInit_measured s.uniq s.records
  | creates _ _ _ _ above _ _ unused =>
    refine inv.sub held rfl ?_ fun td t opened => .inl opened
    intro a f known
    obtain ⟨rfl, rfl⟩ | ⟨-, known⟩ := update_known known
    · exact .inl ⟨_, above, rfl, rfl, rfl⟩
    · obtain ⟨rfl, rfl⟩ | ⟨-, known⟩ := update_known known
      · refine .inr ⟨fun td t opened same => ?_, le_refl 0, fun _ => rfl⟩
        exact inv.held.torrents td t opened (same ▸ unused)
      · exact .inl ⟨f, known, rfl, rfl, rfl⟩
  | opens _ _ _ found =>
    refine inv.sub held rfl ?_ ?_
    · intro a f known
      obtain ⟨rfl, rfl⟩ | ⟨-, known⟩ := update_known known
      · exact .inl ⟨_, found, rfl, rfl, rfl⟩
      · exact .inl ⟨f, known, rfl, rfl, rfl⟩
    · intro td t opened
      obtain ⟨-, rfl⟩ | ⟨-, opened⟩ := update_known opened
      · exact .inr rfl
      · exact .inl opened
  | @recovers _ _ td _ _ t f _ opened known why mapping replayed =>
    have solid := inv.solid _ _ known
    obtain ⟨solid', ⟨-, rfl, rfl⟩ | ⟨r, last, size, start⟩⟩ := replay_solid solid replayed
    · refine inv.edit held rfl rfl rfl rfl solid (inv.offset td t _ opened known) ?_
      intro td' u opened' _ on
      exact inv.offset td' u _ opened' (on ▸ known)
    refine inv.edit held rfl rfl rfl rfl solid' (by dsimp only; omega) ?_
    intro td' u opened' other on
    have below := inv.offset td' u f opened' (on ▸ known)
    cases label with
    | tsplit =>
      -- a file without data is empty
      have fits := solid.1
      have empty := solid.2 why
      omega
    | twmeta =>
      obtain ⟨rfl, allowed, keys, vals, isData⟩ := why
      have bound := (allowed keys vals t opened f known).2 isData _ mapping r last td' u opened' other on
      omega
    | twritep | treadp | tmerge | trelease | reboot => contradiction
  | @adjusts _ _ td t _ opened same why =>
    obtain ⟨f, known⟩ := ne_none_iff_exists'.mp (inv.held.torrents td t opened)
    have unchanged : s.obj = Function.update s.obj t.data (some f) := by rw [← known, Function.update_eq_self]
    refine inv.edit held unchanged rfl rfl same (inv.solid _ _ known) ?_ ?_
    · rcases why with inside | sets
      · exact inside f known (inv.offset td t f opened known)
      cases label with
      | twmeta =>
        obtain ⟨rfl, allowed, keys, vals, isOffset, stored⟩ := sets
        have bound := (allowed keys vals t opened f known).1 isOffset
        omega
      | tsplit | twritep | treadp | tmerge | trelease | reboot => contradiction
    · intro td' u opened' _ on
      exact inv.offset td' u f opened' (on ▸ known)
  | writes opened known fits below room =>
    obtain ⟨solid, grows, inside⟩ := makeRoom_solid (inv.solid _ _ known) below room
    refine inv.edit held rfl rfl rfl rfl solid inside ?_
    intro td' u opened' _ on
    exact le_trans (inv.offset td' u _ opened' (on ▸ known)) grows
  | merges _ _ _ _ _ _ above =>
    refine inv.sub held rfl ?_ fun td t found => .inl (erase_torrents td t found)
    intro a f found
    obtain ⟨-, g, found, frame, -⟩ := removed_known above found
    exact .inl ⟨g, found, by rw [frame], by rw [frame], by rw [frame]⟩
  | releases _ opened known =>
    refine inv.sub held rfl ?_ fun td t found => .inl (erase_torrents td t found)
    intro a f found
    obtain ⟨rfl, rfl⟩ | ⟨-, found⟩ := update_known found
    · exact .inl ⟨_, known, rfl, rfl, rfl⟩
    · exact .inl ⟨f, found, rfl, rfl, rfl⟩

theorem reachable_measured (reached : Reachable ramfs measured s) : Measured s :=
  reached.invariant Measured (cosInit_measured ..) fun _ _ _ inv allowed next =>
    step_keeps Measured allowed next inv fun _ _ inv change => inv.change change

end Invariant

/-! ## Results -/

instance (s : State) (td : Nat) (key val : Str) (t : Torrent) (f : Fsobj) : Decidable (Fits s td key val t f) :=
  inferInstanceAs (Decidable (_ ∧ _))

instance : DecidableRel measured
  | _, .tmerge .. => inferInstanceAs (Decidable (sole _ (.tmerge ..)))
  | s, .twmeta td key _ val _ _ => inferInstanceAs (Decidable (_ = _ → _ = _ →
      ∀ t ∈ s.torrents.get td, ∀ f ∈ s.obj t.data, Fits s td key val t f))
  | _, .tsplit .. | _, .twritep .. | _, .treadp .. | _, .trelease .. | _, .reboot => instDecidableTrue

end SuperGlue.Guarantees.FileOffsets
