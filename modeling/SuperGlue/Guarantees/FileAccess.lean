import SuperGlue.Guarantees.FileRecovery

/-!
# Reading and writing a file

A write puts the bytes it takes at the offset and leaves all others alone, and so does a read for its caller, as long
as there is something to read. At the end of the file it asks for a buffer of no bytes, which fails an assertion of
`cbufp_alloc`, and where there is an error it returns a variable that nothing was stored in.
-/
namespace SuperGlue.Guarantees.FileAccess
open Function Option Lib.Transition Lib.Patches Source.Cbufp.Records Source.Ramfs.File FileRecovery

/-- What `treadp` returns. -/
inductive Reply where
  | error (code : Int)
  | buffer (read : Read)
  /-- The variable `cb` before anything was stored in it. -/
  | undefined

/-- `treadp` with its test of the torrent id. -/
def treadpReply (s : State) (td : Td) (len : Int) : Option (State × Reply) :=
  if td = 0 then some (s, .error einval)
  else (treadp s td len).map fun (s, read) => (s, read.elim .undefined .buffer)

/-- What `twritep` should answer. It may lack memory only for a file that has to grow. -/
def WriteSpec (mem : Buffers) (s : State) (td : Td) (cb : CbufId) (sz : Int) (malloc : Option (Nat → UInt8))
    (answer : Option (State × Int)) : Prop :=
  match s.torrents td with
  | none => answer = some (s, einval)
  | some t =>
    if t.flags &&& torWrite = 0 then answer = some (s, eacces)
    else ∀ fso buf, s.file = some fso → t.offset ≤ fso.size → cbufp2buf mem cb sz = some buf →
      fso.allocated < t.offset + sz ∧ mallocNew fso malloc = none ∧ answer = some (s, enomem) ∨
      ∃ (n : Nat) (fso' : Fsobj) (records : RecordRing), 0 < n ∧ n ≤ sz ∧
        answer = some (⟨fso', update s.torrents td (some { t with offset := t.offset + n }), records⟩, (n : Int)) ∧
        fso'.size = max fso.size (t.offset + n) ∧ (∀ i < n, fso'.byteAt (t.offset + i) = some (buf i)) ∧
        ∀ p < fso.size, ¬ (t.offset ≤ p ∧ p < t.offset + n) → fso'.byteAt p = fso.byteAt p

/-- What `treadp` should answer. -/
def ReadSpec (s : State) (td : Td) (len : Int) (answer : Option (State × Reply)) : Prop :=
  if td = 0 then answer = some (s, .error einval)
  else
    match s.torrents td with
    | none => answer = some (s, .error einval)
    | some t =>
      if t.flags &&& torRead = 0 then answer = some (s, .error eacces)
      else ∀ fso, s.file = some fso → t.offset ≤ fso.size → ∃ (n : Nat) (byte : Nat → UInt8),
        n = min len (fso.size - t.offset) ∧ (∀ i < n, fso.byteAt (t.offset + i) = some (byte i)) ∧
        answer = some ({ s with torrents := update s.torrents td (some { t with offset := t.offset + n }) },
          .buffer ⟨t.offset + n, n, byte⟩)

/-- The torrent may read, and there is something to be read, or no torrent has this id. -/
def Readable (s : State) (td : Td) (len : Int) : Prop :=
  td = 0 ∨ ∃ t, s.torrents td = some t ∧ t.flags &&& torRead ≠ 0 ∧
    ∀ fso, s.file = some fso → t.offset ≤ fso.size → t.offset < fso.size ∧ 0 < len

/-- The slab hands out what is not in use. -/
def Unused (r : RecordRing) (slab : Slab) : Prop := slab.head ∉ r.used ∧ slab.cfd ∉ insert slab.head r.used

variable {fso : Fsobj} {offset : Nat} {malloc : Option (Nat → UInt8)} {slab : Slab}

theorem cbufpRecord_unused {r : RecordRing} (unused : Unused r slab) (rec_ : Record) :
    ∃ r', cbufpRecord r rec_ slab = some r' := by
  obtain ⟨head, cfd⟩ := unused
  unfold cbufpRecord
  split
  · exact ⟨_, if_neg fun mem => cfd (Finset.mem_insert_of_mem mem)⟩
  · rw [cbidfidAlloc, if_neg head]
    exact ⟨_, if_neg cfd⟩

theorem block_of_pos (sound : fso.Sound) (pos : 0 < fso.allocated) :
    ∃ b, fso.data = some b ∧ b.length = fso.allocated := by
  cases data : fso.data with
  | none => exact absurd (sound.null data) pos.ne'
  | some b => exact ⟨b, rfl, (sound.block b data).1⟩

theorem copyIn_fits {b : Block} {len : Nat} (data : fso.data = some b) (inside : offset + len ≤ b.length)
    (buf : Nat → UInt8) : ∃ fso', copyIn fso offset len buf = some fso' := by
  rw [copyIn, data, bind_some, Block.write, if_pos inside]
  exact ⟨_, rfl⟩

/-- Room is made and can be written to, unless a larger block is needed and there is none. -/
theorem makeRoom_cases (sound : fso.Sound) (continues : offset ≤ fso.size) {sz : Nat} (pos : 0 < sz)
    (malloc : Option (Nat → UInt8)) (buf : Nat → UInt8) :
    fso.allocated < offset + sz ∧ mallocNew fso malloc = none ∧ makeRoom fso offset sz malloc = some none ∨
      ∃ fso1 ret, makeRoom fso offset sz malloc = some (some (fso1, ret)) ∧
        ∃ fso', copyIn fso1 offset ret buf = some fso' := by
  have fits := sound.fits
  unfold makeRoom
  split
  next small =>
    obtain ⟨b, data, length⟩ := block_of_pos sound (by omega)
    exact .inr ⟨_, _, rfl, copyIn_fits (by exact data) (length ▸ small) buf⟩
  rename_i large
  split
  next none_ => exact .inl ⟨not_le.mp large, none_, rfl⟩
  rename_i fresh _
  have grows := newSz_cases fso.allocated
  have moved : ∃ b, moveData fso fresh = some b ∧ b.length = newSz fso.allocated := by
    unfold moveData
    split
    · exact ⟨_, rfl, rfl⟩
    next old data =>
      rw [if_pos (fits.trans (sound.block old data).1.ge), Block.write, if_pos (by dsimp only; omega)]
      exact ⟨_, rfl, rfl⟩
  obtain ⟨b, moved, length⟩ := moved
  rw [moved]
  exact .inr ⟨_, _, rfl, copyIn_fits rfl (by omega) buf⟩

theorem write_right {mem : Buffers} {s : State} (sound : ∀ fso, s.file = some fso → fso.Sound) (td : Td) (cb : CbufId)
    (sz : Int) (unused : Unused s.records slab) :
    WriteSpec mem s td cb sz malloc (twritep mem s td cb sz malloc slab) := by
  unfold WriteSpec twritep
  cases s.torrents td with
  | none => rfl
  | some t =>
    dsimp only
    split
    · rfl
    intro fso buf file continues buffer
    have sound := sound fso file
    have pos := (cbufp2buf_some buffer).2.1
    rw [file, bind_some, writeFile, if_pos ⟨sound.fits, continues⟩, buffer, bind_some]
    have taken : 0 < sz.toNat := by omega
    rcases makeRoom_cases sound continues taken malloc buf with
      ⟨large, none_, room⟩ | ⟨fso1, ret, room, fso', copied⟩
    · rw [room]
      exact .inl ⟨by omega, none_, rfl⟩
    have wrote := makeRoom_wrote sound continues room copied
    obtain ⟨records, recorded⟩ := cbufpRecord_unused unused ⟨cb, ret, t.offset⟩
    rw [room, bind_some]
    dsimp only
    rw [copied, recorded]
    have size := wrote.size
    have old : ∀ p < fso.size, fso.byteAt p = some ((fso.byteAt p).getD 0) := by
      intro p inside
      obtain ⟨b, data, -⟩ := block_of_pos sound (by have := sound.fits; omega)
      simp [Fsobj.byteAt, data]
    have bytes := wrote.bytes _ old
    refine .inr ⟨ret, fso', records, wrote_positive sound continues wrote (by omega), ?_, rfl, wrote.size, ?_, ?_⟩
    · rcases wrote.cut with eq | ⟨le, -⟩ <;> omega
    · intro i inside
      rw [bytes _ (by omega), apply_covered ⟨Nat.le_add_right .., Nat.add_lt_add_left inside _⟩]
      simp
    · intro p inside outside
      rw [bytes p (by omega), old p inside]
      exact congrArg some (if_neg outside)

/-- A read is right if and only if it is not one of those. -/
theorem read_right_iff {s : State} (sound : ∀ fso, s.file = some fso → fso.Sound) (td : Td) {len : Int}
    (nonneg : 0 ≤ len) : ReadSpec s td len (treadpReply s td len) ↔ Readable s td len := by
  unfold ReadSpec treadpReply Readable treadp
  by_cases null : td = 0
  · simp [null]
  rw [if_neg null, if_neg null, or_iff_right null]
  cases s.torrents td with
  | none => simp
  | some t =>
    by_cases flag : t.flags &&& torRead = 0
    · simp [flag]
    simp only [if_false, some.injEq, exists_eq_left', ne_eq, flag, not_false_eq_true, true_and]
    refine forall_congr' fun fso => forall_congr' fun file => forall_congr' fun continues => ?_
    have sound := sound fso file
    simp only [file, bind_some, if_pos (And.intro sound.fits continues)]
    constructor
    · rintro ⟨n, byte, -, -, answer⟩
      split at answer
      · simp at answer
      split at answer
      · contradiction
      · omega
    · rintro ⟨inside, pos⟩
      obtain ⟨b, data, -⟩ := block_of_pos sound (by have := sound.fits; omega)
      refine ⟨(min (fso.size - t.offset : Int) len).toNat, fun i => b.byte (t.offset + i), by omega, ?_, ?_⟩
      · intro i _
        simp [Fsobj.byteAt, data]
      · rw [if_neg (by omega), if_neg (by omega), data]
        rfl

/-- Buffers of one page. -/
def pages : Buffers := fun cb => ⟨1, fun i => .ofNat (cb + i)⟩

/-- Four bytes are written to a new file. -/
def fourBytes : List Call := [.tsplit 3 (some 2) fun _ _ => 0, .twritep 2 1 4 (some fun _ => 0) ⟨1, 2⟩]

end SuperGlue.Guarantees.FileAccess
