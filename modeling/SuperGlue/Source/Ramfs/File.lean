import SuperGlue.Lib.Patches
import SuperGlue.Source.Cbufp.Records

/-!
# A file of the RAM file system

`torrent/ramfs/__ramfs_rec`, with `twmeta` of `torlib.c` as far as it sets an offset: one file, its
torrents, and the records of its writes in the buffer manager. The root torrent, which has the id 1 and no
file, is not among them. A call that ends in a failed assertion
or in an access outside a block is `none`.

Sizes and offsets are 32-bit words in the source. No block of 2 GiB can be allocated, as the physical
memory is smaller, so none of their sums wraps.
-/
namespace SuperGlue.Source.Ramfs.File
open List Function Option Lib.Patches Cbufp.Records

abbrev Td := Nat

def minDataSz : Nat := 256
def torWrite : Nat := 1
def torRead : Nat := 2
def enomem : Int := -12
def eacces : Int := -13
def einval : Int := -22

/-- A block of memory from `malloc`. -/
structure Block where
  length : Nat
  byte : Nat → UInt8

/-- `memcpy` into a block, which must not run past its end. -/
def Block.write (b : Block) (w : Patch UInt8) : Option Block :=
  if w.start + w.len ≤ b.length then some { b with byte := w.apply b.byte } else none

/-- `struct fsobj`, as far as its contents go. -/
structure Fsobj where
  size : Nat
  allocated : Nat
  flags : Nat
  data : Option Block

structure Torrent where
  offset : Nat
  flags : Nat
  deriving DecidableEq, Repr

structure State where
  file : Option Fsobj
  torrents : Td → Option Torrent
  records : RecordRing

structure Cbuf where
  pages : Nat
  byte : Nat → UInt8

/-- The persistent buffers and what they hold while they are recorded. -/
abbrev Buffers := CbufId → Cbuf

variable (mem : Buffers)

/-- `cbufp2buf` for a buffer of another component. There is no buffer 0, and a negative length faults
in the `memcpy` that follows. -/
def cbufp2buf (cbid : CbufId) (len : Int) : Option (Nat → UInt8) :=
  if len ≤ 0 ∨ cbid = 0 ∨ (mem cbid).pages < len.toNat / 4096 then none else some (mem cbid).byte

/-! ## Blocks -/

def newSz (allocated : Nat) : Nat := if allocated = 0 then minDataSz else allocated * 2

variable (fso : Fsobj)

/-- The old data moved to a new block, whose first contents are arbitrary. As much is copied as the
size says, which need not be what the old block has. -/
def moveData (fresh : Nat → UInt8) : Option Block :=
  match fso.data with
  | none => some ⟨newSz fso.allocated, fresh⟩
  | some old =>
    if fso.size ≤ old.length then Block.write ⟨newSz fso.allocated, fresh⟩ ⟨0, fso.size, old.byte⟩
    else none

/-- The final `memcpy(fso->data + t->offset, buf, ret)`. -/
def copyIn (offset len : Nat) (buf : Nat → UInt8) : Option Fsobj :=
  fso.data.bind fun b => (b.write ⟨offset, len, buf⟩).map fun b => { fso with data := some b }

/-- What `malloc(new_sz)` returns. -/
def mallocNew (malloc : Option (Nat → UInt8)) : Option (Nat → UInt8) :=
  if 2 ^ 31 ≤ newSz fso.allocated then none else malloc

/-! ## Calls -/

/-- The part of `twritep` that makes room: the new file, and how many bytes it takes. The inner
`none` is the `-ENOMEM` exit. -/
def makeRoom (offset sz : Nat) (malloc : Option (Nat → UInt8)) : Option (Option (Fsobj × Nat)) :=
  if offset + sz ≤ fso.allocated then
    some (some ({ fso with size := max fso.size (offset + sz) }, sz))
  else
    match mallocNew fso malloc with
    | none => some none
    | some fresh => (moveData fso fresh).map fun data =>
      let ret := min sz (newSz fso.allocated - offset)
      some ({ fso with
        data := some data
        allocated := newSz fso.allocated
        size := offset + ret }, ret)

variable (s : State)

/-- `twritep` from where the torrent and the file are known. -/
def writeFile (td : Td) (t : Torrent) (fso : Fsobj) (cb : CbufId) (sz : Int)
    (malloc : Option (Nat → UInt8)) (slab : Slab) : Option (State × Int) :=
  if fso.size ≤ fso.allocated ∧ t.offset ≤ fso.size then
    (cbufp2buf mem cb sz).bind fun buf =>
      (makeRoom fso t.offset sz.toNat malloc).bind fun
        | none => some (s, enomem)
        | some (fso, ret) => (copyIn fso t.offset ret buf).bind fun fso =>
          (cbufpRecord s.records ⟨cb, ret, t.offset⟩ slab).map fun records =>
            ({ file := some fso
               torrents := update s.torrents td (some { t with offset := t.offset + ret })
               records := records }, (ret : Int))
  else none

def twritep (td : Td) (cb : CbufId) (sz : Int)
    (malloc : Option (Nat → UInt8)) (slab : Slab) : Option (State × Int) :=
  match s.torrents td with
  | none => some (s, einval)
  | some t =>
    if t.flags &&& torWrite = 0 then some (s, eacces)
    else s.file.bind fun fso => writeFile mem s td t fso cb sz malloc slab

/-- What `treadp` hands to its caller: the new offset, the number of bytes, and the bytes. -/
structure Read where
  off : Nat
  sz : Nat
  byte : Nat → UInt8

/-- `treadp`. Where nothing is read, the buffer that it returns is not initialised. -/
def treadp (td : Td) (len : Int) : Option (State × Option Read) :=
  match s.torrents td with
  | none => some (s, none)
  | some t =>
    if t.flags &&& torRead = 0 then some (s, none)
    else s.file.bind fun fso =>
      if fso.size ≤ fso.allocated ∧ t.offset ≤ fso.size then
        if fso.size = 0 then some (s, none)
        else
          let ret := min (fso.size - t.offset : Int) len
          if ret ≤ 0 then none -- no buffer of this size
          else fso.data.map fun b =>
            let t' := { t with offset := t.offset + ret.toNat }
            ({ s with torrents := update s.torrents td (some t') },
              some ⟨t'.offset, ret.toNat, fun i => b.byte (t.offset + i)⟩)
      else none

/-- `twmeta` with the key `offset`. -/
def twmetaOffset (td : Td) (offset : Nat) : State × Int :=
  match s.torrents td with
  | none => (s, -1)
  | some t => ({ s with torrents := update s.torrents td (some { t with offset := offset }) }, 0)

def trelease (td : Td) : State :=
  if td ≤ 1 then s else { s with torrents := update s.torrents td none }

/-! ## Recovery -/

/-- The body of the loop of `__twmeta`: the size is set before anything else. -/
def replayRecord (offset len : Nat) (buf fresh : Nat → UInt8) : Option Fsobj :=
  let fso := { fso with size := offset + len }
  if offset + len ≤ fso.allocated then copyIn fso offset len buf
  else (mallocNew fso (some fresh)).bind fun fresh => (moveData fso fresh).bind fun data =>
    copyIn { fso with data := some data, allocated := newSz fso.allocated } offset len buf

/-- The loop of `__twmeta` from record `i` on, with `n` records left. -/
def twmeta (mem : Buffers) (r : RecordRing) (fresh : Nat → Nat → UInt8) : Nat → Nat → Fsobj → Option Fsobj
  | _, 0, fso => some fso
  | i, n + 1, fso =>
    (cbufpReflect r i 1).bind fun offset =>
      (cbufpReflect r i 2).bind fun len =>
        (cbufpReflect r i 3).bind fun cbid =>
          if offset < 0 ∨ len < 0 ∨ cbid = 0 then none
          else (cbufp2buf mem cbid.toNat len).bind fun buf =>
            (replayRecord fso offset.toNat len.toNat buf (fresh i)).bind fun fso =>
              twmeta mem r fresh (i + 1) n fso

/-- A file without data whose writes are recorded has been lost. -/
def recover (r : RecordRing) (fresh : Nat → Nat → UInt8) (fso : Fsobj) : Option Fsobj :=
  if fso.data.isSome then some fso
  else (cbufpReflect r 0 0).bind fun num =>
    if 0 < num then twmeta mem r fresh 0 num.toNat fso else some fso

/-- `tsplit` for the path of the file, in a directory that allows it. -/
def tsplit (tflags : Nat) (td : Option Td) (fresh : Nat → Nat → UInt8) :
    Option (State × Int) :=
  let fso := s.file.getD ⟨0, 0, tflags, none⟩
  if tflags &&& fso.flags ≠ tflags then some (s, eacces)
  else
    match td with
    | none => some ({ s with file := some fso }, enomem)
    | some td =>
      if td ≤ 1 ∨ (s.torrents td).isSome then none
      else (recover mem s.records fresh fso).map fun fso =>
        ({ s with
           file := some fso
           torrents := update s.torrents td (some ⟨0, tflags⟩) }, (td : Int))

/-- A fault of the file system: what the buffer manager holds stays. -/
def reboot : State := { file := none, torrents := fun _ => none, records := s.records }

def start : State := { file := none, torrents := fun _ => none, records := noRecords }

/-- The calls that leave the file in place. -/
inductive Call where
  | tsplit (tflags : Nat) (td : Option Td) (fresh : Nat → Nat → UInt8)
  | twritep (td : Td) (cb : CbufId) (sz : Int) (malloc : Option (Nat → UInt8)) (slab : Slab)
  | treadp (td : Td) (len : Int)
  | twmetaOffset (td : Td) (offset : Nat)
  | trelease (td : Td)

def call : Call → Option (State × Int)
  | .tsplit tflags td fresh => tsplit mem s tflags td fresh
  | .twritep td cb sz malloc slab => twritep mem s td cb sz malloc slab
  | .treadp td len => (treadp s td len).map fun (s, _) => (s, 0)
  | .twmetaOffset td offset => some (twmetaOffset s td offset)
  | .trelease td => some (trelease s td, 0)

/-! ## What a write does to the file -/

def Fsobj.byteAt (p : Nat) : Option UInt8 := fso.data.map fun b => b.byte p

/-- The contents fit, and the block is as long as the file says. -/
structure Fsobj.Sound (fso : Fsobj) : Prop where
  fits : fso.size ≤ fso.allocated
  null : fso.data = none → fso.allocated = 0
  block : ∀ b, fso.data = some b → b.length = fso.allocated ∧ minDataSz ≤ fso.allocated

theorem sound_empty (flags : Nat) : Fsobj.Sound ⟨0, 0, flags, none⟩ :=
  ⟨le_rfl, fun _ => rfl, by simp⟩

/-- A write of `ret` of the `sz` bytes asked for. It is cut short only at the end of a new block. -/
structure Wrote (fso : Fsobj) (offset sz : Nat) (buf : Nat → UInt8) (fso' : Fsobj) (ret : Nat) :
    Prop where
  sound : fso'.Sound
  size : fso'.size = max fso.size (offset + ret)
  allocated : fso'.allocated = fso.allocated ∨ fso'.allocated = newSz fso.allocated
  cut : ret = sz ∨ ret ≤ sz ∧ offset + ret = newSz fso.allocated
  bytes : ∀ old : Nat → UInt8, (∀ p, p < fso.size → fso.byteAt p = some (old p)) →
    ∀ p, p < fso'.size → fso'.byteAt p = some (Patch.apply ⟨offset, ret, buf⟩ old p)

theorem newSz_cases (allocated : Nat) :
    allocated = 0 ∧ newSz allocated = minDataSz ∨ 0 < allocated ∧ newSz allocated = allocated * 2 := by
  unfold newSz
  split <;> omega

theorem write_some {b b' : Block} {w : Patch UInt8} (h : b.write w = some b') :
    w.start + w.len ≤ b.length ∧ b' = ⟨b.length, w.apply b.byte⟩ := by
  unfold Block.write at h
  split at h
  next fits =>
    cases h
    exact ⟨fits, rfl⟩
  · contradiction

variable {fso fso' : Fsobj} {offset len : Nat} {buf : Nat → UInt8} {fresh : Nat → UInt8} {fso₁ : Fsobj}

theorem copyIn_some (h : copyIn fso offset len buf = some fso') : ∃ b, fso.data = some b ∧ offset + len ≤ b.length ∧
      fso' = { fso with data := some ⟨b.length, Patch.apply ⟨offset, len, buf⟩ b.byte⟩ } := by
  obtain ⟨b, data, h⟩ := bind_eq_some_iff.mp h
  obtain ⟨b', written, rfl⟩ := map_eq_some_iff.mp h
  obtain ⟨fits, rfl⟩ := write_some written
  exact ⟨b, data, fits, rfl⟩

theorem moveData_some {b : Block} (sound : fso.Sound) (h : moveData fso fresh = some b) :
    b.length = newSz fso.allocated ∧ ∀ p, p < fso.size → fso.byteAt p = some (b.byte p) := by
  unfold moveData at h
  split at h
  next null =>
    cases h
    have empty := sound.null null
    have fits := sound.fits
    exact ⟨rfl, fun p inside => by omega⟩
  next old data =>
    split at h
    · obtain ⟨_, rfl⟩ := write_some h
      refine ⟨rfl, ?_⟩
      intro p inside
      have covered : Patch.Covers ⟨0, fso.size, old.byte⟩ p := ⟨Nat.zero_le p, by simpa using inside⟩
      simp [Fsobj.byteAt, data, apply_covered covered]
    · contradiction

/-- Copying into a file whose old bytes are known. -/
theorem copyIn_bytes {old : Nat → UInt8} (copied : copyIn fso₁ offset len buf = some fso')
    (continues : offset ≤ fso.size) (kept : ∀ p, p < fso.size → fso₁.byteAt p = fso.byteAt p)
    (before : ∀ p, p < fso.size → fso.byteAt p = some (old p)) {p : Nat} (inside : p < max fso.size (offset + len)) :
    fso'.byteAt p = some (Patch.apply ⟨offset, len, buf⟩ old p) := by
  obtain ⟨b, data, _, rfl⟩ := copyIn_some copied
  simp only [Fsobj.byteAt, map_some, some.injEq]
  by_cases covered : Patch.Covers ⟨offset, len, buf⟩ p
  · rw [apply_covered covered, apply_covered covered]
  have inside : p < fso.size := by
    change ¬ (offset ≤ p ∧ p < offset + len) at covered
    omega
  apply apply_congr
  have same := (kept p inside).trans (before p inside)
  simpa [Fsobj.byteAt, data] using same

variable {malloc : Option (Nat → UInt8)}

theorem makeRoom_wrote {sz ret : Nat} (sound : fso.Sound) (continues : offset ≤ fso.size)
    (room : makeRoom fso offset sz malloc = some (some (fso₁, ret)))
    (copied : copyIn fso₁ offset ret buf = some fso') : Wrote fso offset sz buf fso' ret := by
  have fits := sound.fits
  unfold makeRoom at room
  split at room
  next small =>
    cases room
    obtain ⟨b, data, _, eq⟩ := copyIn_some copied
    refine ⟨?_, by rw [eq], .inl (by rw [eq]), .inl rfl, ?_⟩
    · rw [eq]
      refine ⟨max_le fits small, by simp, ?_⟩
      simpa using sound.block b data
    · intro old before p inside
      rw [eq] at inside
      exact copyIn_bytes copied continues (fun _ _ => rfl) before inside
  next large =>
    split at room
    · simp at room
    obtain ⟨data, moved, answer⟩ := map_eq_some_iff.mp room
    obtain ⟨rfl, rfl⟩ := answer
    obtain ⟨length, kept⟩ := moveData_some sound moved
    obtain ⟨b, dataEq, _, eq⟩ := copyIn_some copied
    obtain rfl : data = b := by simpa using dataEq
    have minimal : 0 < fso.allocated → minDataSz ≤ fso.allocated := by
      intro pos
      cases null : fso.data with
      | none => exact absurd (sound.null null) (by omega)
      | some old => exact (sound.block old null).2
    have grows := newSz_cases fso.allocated
    have size : offset + min sz (newSz fso.allocated - offset) =
        max fso.size (offset + min sz (newSz fso.allocated - offset)) := by omega
    refine ⟨?_, ?_, .inr (by rw [eq]), by omega, ?_⟩
    · rw [eq]
      refine ⟨?_, by simp, ?_⟩
      · change offset + min sz (newSz fso.allocated - offset) ≤ newSz fso.allocated
        omega
      · simp only [some.injEq, forall_eq']
        exact ⟨length, by omega⟩
    · rw [eq]
      exact size
    · intro old before p inside
      rw [eq] at inside
      refine copyIn_bytes copied continues ?_ before (size ▸ inside)
      intro p inside
      rw [kept p inside]
      rfl

/-- How `twritep` can return. -/
inductive WriteExit (mem : Buffers) (s : State) (td : Td) (cb : CbufId) (sz : Int) (slab : Slab) :
    State → Int → Prop where
  | refused {ret : Int} (negative : ret < 0) : WriteExit mem s td cb sz slab s ret
  | wrote {t : Torrent} {fso fso₁ fso' : Fsobj} {malloc : Option (Nat → UInt8)} {buf : Nat → UInt8}
      {ret : Nat} {records : RecordRing} (torrent : s.torrents td = some t) (file : s.file = some fso)
      (continues : t.offset ≤ fso.size) (buffer : cbufp2buf mem cb sz = some buf)
      (room : makeRoom fso t.offset sz.toNat malloc = some (some (fso₁, ret)))
      (copied : copyIn fso₁ t.offset ret buf = some fso')
      (recorded : cbufpRecord s.records ⟨cb, ret, t.offset⟩ slab = some records) :
      WriteExit mem s td cb sz slab
        { file := some fso'
          torrents := update s.torrents td (some { t with offset := t.offset + ret })
          records := records } ret

variable {mem : Buffers} {s s' : State} {cb : CbufId} {sz ret : Int} {slab : Slab} {r : RecordRing}

theorem writeFile_exit {td : Td} {t : Torrent} (torrent : s.torrents td = some t) (file : s.file = some fso)
    (h : writeFile mem s td t fso cb sz malloc slab = some (s', ret)) : WriteExit mem s td cb sz slab s' ret := by
  unfold writeFile at h
  split at h
  next asserted =>
    obtain ⟨buf, buffer, h⟩ := bind_eq_some_iff.mp h
    obtain ⟨room, made, h⟩ := bind_eq_some_iff.mp h
    cases room with
    | none =>
      cases h
      exact .refused (by decide)
    | some room =>
      obtain ⟨fso', copied, h⟩ := bind_eq_some_iff.mp h
      obtain ⟨records, recorded, ⟨⟩⟩ := map_eq_some_iff.mp h
      exact .wrote torrent file asserted.2 buffer made copied recorded
  · contradiction

theorem twritep_exit {td : Td}
    (h : twritep mem s td cb sz malloc slab = some (s', ret)) : WriteExit mem s td cb sz slab s' ret := by
  unfold twritep at h
  split at h
  · cases h
    exact .refused (by decide)
  rename_i t torrent
  split at h
  · cases h
    exact .refused (by decide)
  · obtain ⟨fso, file, h⟩ := bind_eq_some_iff.mp h
    exact writeFile_exit torrent file h

/-! ## What recovery does -/

theorem replayRecord_some (h : replayRecord fso offset len buf fresh = some fso') : fso'.size = offset + len ∧
      ∀ p, offset ≤ p → p < offset + len → fso'.byteAt p = some (buf (p - offset)) := by
  have copied : ∃ fso₁, fso₁.size = offset + len ∧ copyIn fso₁ offset len buf = some fso' := by
    unfold replayRecord at h
    simp only at h
    split at h
    · exact ⟨_, rfl, h⟩
    · obtain ⟨_, _, h⟩ := bind_eq_some_iff.mp h
      obtain ⟨_, _, h⟩ := bind_eq_some_iff.mp h
      exact ⟨_, rfl, h⟩
  obtain ⟨fso₁, size, copied⟩ := copied
  obtain ⟨b, _, _, rfl⟩ := copyIn_some copied
  refine ⟨size, ?_⟩
  intro p low high
  have covered : Patch.Covers ⟨offset, len, buf⟩ p := ⟨low, high⟩
  simp [Fsobj.byteAt, apply_covered covered]

/-- A file that has no block yet, or the first one. -/
def Fsobj.OneBlock (fso : Fsobj) : Prop :=
  fso.data = none ∧ fso.allocated = 0 ∨ ∃ b, fso.data = some b ∧ b.length = minDataSz ∧ fso.allocated = minDataSz

/-- What fits into the first block is put back without a fault. -/
theorem replayRecord_oneBlock (buf fresh : Nat → UInt8) (one : fso.OneBlock) (pos : 0 < len)
    (fits : offset + len ≤ minDataSz) : ∃ fso', replayRecord fso offset len buf fresh = some fso' ∧ fso'.OneBlock := by
  rcases one with ⟨null, zero⟩ | ⟨b, data, length, allocated⟩
  · have none_ : ¬ offset + len ≤ 0 := by omega
    have granted : ¬ 2147483648 ≤ minDataSz := by decide
    refine ⟨{ fso with
      size := offset + len
      allocated := minDataSz
      data := some ⟨minDataSz, Patch.apply ⟨offset, len, buf⟩ fresh⟩ }, ?_, ?_⟩
    · simp [replayRecord, zero, none_, mallocNew, granted, moveData, null, newSz, copyIn, Block.write, fits]
    · exact .inr ⟨_, rfl, rfl, rfl⟩
  · refine ⟨{ fso with
      size := offset + len
      data := some ⟨b.length, Patch.apply ⟨offset, len, buf⟩ b.byte⟩ }, ?_, ?_⟩
    · simp [replayRecord, allocated, fits, copyIn, data, Block.write, length]
    · exact .inr ⟨_, rfl, length, allocated⟩

/-- The loop of `__twmeta` over the records themselves. -/
def replay (mem : Buffers) (fresh : Nat → Nat → UInt8) : Nat → List Record → Fsobj → Option Fsobj
  | _, [], fso => some fso
  | i, rec_ :: rest, fso => (cbufp2buf mem rec_.cbid rec_.len).bind fun buf =>
    (replayRecord fso rec_.offset rec_.len buf (fresh i)).bind (replay mem fresh (i + 1) rest)

theorem twmeta_replay {fresh : Nat → Nat → UInt8} (front : List Record) {rest : List Record} (fso : Fsobj)
    (h : Holds r (front ++ rest)) (valid : ∀ rec_ ∈ rest, rec_.cbid ≠ 0) :
    twmeta mem r fresh front.length rest.length fso = replay mem fresh front.length rest fso := by
  induction rest generalizing front fso with
  | nil => rfl
  | cons rec_ rest ih =>
    obtain ⟨offset, len, cbid⟩ := (cbufpReflect_some h (by simp)).2 front.length rec_ (by simp)
    have buffer := valid rec_ mem_cons_self
    have next : ∀ fso, twmeta mem r fresh (front.length + 1) rest.length fso =
        replay mem fresh (front.length + 1) rest fso := by
      intro fso
      have shifted : Holds r ((front ++ [rec_]) ++ rest) := by simpa using h
      simpa using ih (front ++ [rec_]) fso shifted fun rec_ member => valid rec_ (mem_cons_of_mem _ member)
    have sane : ¬ ((rec_.offset : Int) < 0 ∨ (rec_.len : Int) < 0 ∨ (rec_.cbid : Int) = 0) := by
      simp [buffer]
    simp only [length_cons, twmeta, offset, len, cbid, bind_some, if_neg sane]
    congr 1
    funext buf
    congr 1
    funext fso
    exact next fso

/-- An empty file gets all recorded writes back, in the order of the ring. -/
theorem recover_replay {fresh : Nat → Nat → UInt8}
    {records : List Record} (h : Holds r records) (null : fso.data = none)
    (valid : ∀ rec_ ∈ records, rec_.cbid ≠ 0) : recover mem r fresh fso = replay mem fresh 0 records fso := by
  cases records with
  | nil => simp [recover, null, cbufpReflect_none h, replay]
  | cons rec_ rest =>
    have pos : (0 : Int) < ((rec_ :: rest).length : Nat) := Int.ofNat_succ_pos rest.length
    rw [recover, if_neg (by simp [null]), (cbufpReflect_some h (by simp)).1 0, bind_some, if_pos pos]
    exact twmeta_replay [] fso h valid

end SuperGlue.Source.Ramfs.File
