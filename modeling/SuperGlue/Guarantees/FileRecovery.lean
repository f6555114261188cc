import SuperGlue.Lib.Transition
import SuperGlue.Source.Ramfs.File

/-!
# Rebuilding a file from its recorded writes

The records are replayed from the newest to the oldest, and each replayed record sets the size of the
file to its own end. So what is rebuilt is decided by the first write: the file comes back exactly
if all later writes stay inside the first one and leave the bytes there as it put them.
-/
namespace SuperGlue.Guarantees.FileRecovery
open Option List Lib.Transition Lib.Patches Source.Cbufp.Records Source.Ramfs.File

/-! ## Runs -/

/-- A successful write: the offset of the torrent before it, and what was asked for. -/
structure Written where
  offset : Nat
  sz : Nat
  cb : CbufId
  deriving DecidableEq, Repr

/-- The file with the writes to it, the oldest first. -/
structure Tracked where
  state : State
  written : List Written

def noteWrite (t : Tracked) (ret : Int) : Call → List Written
  | .twritep td cb sz _ _ =>
    match t.state.torrents td with
    | some torrent => if 0 < ret then t.written ++ [⟨torrent.offset, sz.toNat, cb⟩] else t.written
    | none => t.written
  | _ => t.written

def fileSystem (mem : Buffers) : System Tracked Call where
  init := ⟨start, []⟩
  step := fun t c => (call mem t.state c).map fun (s, ret) => ⟨s, noteWrite t ret c⟩

def size (s : State) : Nat := (s.file.map fun fso => fso.size).getD 0

def byteAt (s : State) (p : Nat) : Option UInt8 := s.file.bind fun fso => fso.byteAt p

/-- The first `tsplit` after a reboot gives the file back as it was. -/
def Rebuilt (mem : Buffers) (s : State) (tflags : Nat) (td : Td) (fresh : Nat → Nat → UInt8) : Prop :=
  ∃ s', tsplit mem (reboot s) tflags (some td) fresh = some (s', (td : Int)) ∧ size s' = size s ∧
    ∀ p, p < size s → byteAt s' p = byteAt s p

def Written.patch (mem : Buffers) (w : Written) : Patch UInt8 := ⟨w.offset, w.sz, (mem w.cb).byte⟩

/-- All later writes stay inside the first one, as much of it as fits into the first block, and the
bytes there end up as it put them. -/
def FirstStands (mem : Buffers) : List Written → Prop
  | [] => True
  | first :: rest => (∀ w ∈ rest, w.offset + w.sz ≤ min first.sz minDataSz) ∧
      ∀ p, p < min first.sz minDataSz →
        applyAll (rest.map (Written.patch mem)) (mem first.cb).byte p = (mem first.cb).byte p

instance (mem : Buffers) : DecidablePred (FirstStands mem) := fun written =>
  match written with
  | [] => instDecidableTrue
  | _ :: _ => inferInstanceAs (Decidable (_ ∧ _))

variable {mem : Buffers}

/-! ## The history of a file -/

def recordPatch (mem : Buffers) (r : Record) : Patch UInt8 := ⟨r.offset, r.len, (mem r.cbid).byte⟩

/-- The file after these writes, with their records. -/
inductive Chronicle (mem : Buffers) : List Written → List Record → Fsobj → Prop where
  | start (flags : Nat) : Chronicle mem [] [] ⟨0, 0, flags, none⟩
  | write {written : List Written} {records : List Record} {fso fso' : Fsobj} {offset ret : Nat}
      {cb : CbufId} {sz : Int} {buf : Nat → UInt8} (before : Chronicle mem written records fso)
      (continues : offset ≤ fso.size) (buffer : cbufp2buf mem cb sz = some buf)
      (wrote : Wrote fso offset sz.toNat buf fso' ret) :
      Chronicle mem (written ++ [⟨offset, sz.toNat, cb⟩]) (records ++ [⟨cb, ret, offset⟩]) fso'

variable {written : List Written} {records : List Record} {fso : Fsobj} {cb : CbufId} {buf : Nat → UInt8} {fso' : Fsobj}

theorem cbufp2buf_some {len : Int} (h : cbufp2buf mem cb len = some buf) :
    buf = (mem cb).byte ∧ 0 < len ∧ cb ≠ 0 ∧ len.toNat / 4096 ≤ (mem cb).pages := by
  unfold cbufp2buf at h
  split at h
  · contradiction
  next valid =>
    cases h
    simp only [not_or, not_le, not_lt] at valid
    exact ⟨rfl, valid⟩

/-- A write of at least one byte puts down at least one. -/
theorem wrote_positive {offset sz ret : Nat} (sound : fso.Sound)
    (continues : offset ≤ fso.size) (wrote : Wrote fso offset sz buf fso' ret) (pos : 0 < sz) : 0 < ret := by
  have fits := sound.fits
  have grows := newSz_cases fso.allocated
  have atLeast : minDataSz = 256 := rfl
  rcases wrote.cut with eq | ⟨_, eq⟩ <;> omega

/-- A record can be replayed: its buffer is there and it has bytes. -/
def Valid (mem : Buffers) (r : Record) : Prop :=
  r.cbid ≠ 0 ∧ 0 < r.len ∧ cbufp2buf mem r.cbid r.len = some (mem r.cbid).byte

/-- How a record is related to the write it was made for, after the first one. -/
def Later (w : Written) (r : Record) : Prop :=
  r.offset = w.offset ∧ r.cbid = w.cb ∧ r.len ≤ w.sz ∧ (r.len = w.sz ∨ minDataSz < r.offset + r.len)

section

variable (h : Chronicle mem written records fso)
include h

theorem Chronicle.sound : fso.Sound := by
  cases h with
  | start flags => exact sound_empty flags
  | write _ _ _ wrote => exact wrote.sound

/-- The contents are those of the recorded writes in order. -/
theorem Chronicle.bytes (base : Nat → UInt8) (p : Nat)
    (inside : p < fso.size) : fso.byteAt p = some (applyAll (records.map (recordPatch mem)) base p) := by
  induction h generalizing p with
  | start => simp at inside
  | @write written records fso fso' offset ret cb sz buf before continues buffer wrote ih =>
    obtain ⟨rfl, _⟩ := cbufp2buf_some buffer
    rw [map_append, map_singleton, applyAll_snoc]
    exact wrote.bytes _ ih p inside

theorem Chronicle.size_le (n : Nat) : fso.size ≤ n ↔ ∀ r ∈ records, r.offset + r.len ≤ n := by
  induction h with
  | start => simp
  | write before continues buffer wrote ih =>
    rw [wrote.size, max_le_iff, ih]
    simp [or_imp, forall_and]

theorem Chronicle.valid : ∀ r ∈ records, Valid mem r := by
  induction h with
  | start => simp
  | @write written records fso fso' offset ret cb sz buf before continues buffer wrote ih =>
    intro r member
    rcases mem_append.mp member with member | member
    · exact ih r member
    rw [mem_singleton] at member
    subst member
    obtain ⟨_, pos, nonzero, pages⟩ := cbufp2buf_some buffer
    have some_ := wrote_positive before.sound continues wrote (by omega)
    have less : ret ≤ sz.toNat := by
      rcases wrote.cut with eq | ⟨le, _⟩ <;> omega
    refine ⟨nonzero, some_, ?_⟩
    have enough : ¬ (mem cb).pages < ret / 4096 := by omega
    simp [cbufp2buf, nonzero, enough, Nat.ne_of_gt some_]

/-- The first write starts the file and is cut at the end of the first block; every later one is
recorded as asked for, or runs past that block. -/
theorem Chronicle.first : (written = [] ∧ records = [] ∧ fso.size = 0 ∧ fso.allocated = 0) ∨
      ∃ w ws r rs, written = w :: ws ∧ records = r :: rs ∧ r = ⟨w.cb, min w.sz minDataSz, 0⟩ ∧
        List.Forall₂ Later ws rs ∧ minDataSz ≤ fso.allocated := by
  induction h with
  | start => exact .inl ⟨rfl, rfl, rfl, rfl⟩
  | @write written records fso fso' offset ret cb sz buf before continues buffer wrote ih =>
    have grows := newSz_cases fso.allocated
    have cut := wrote.cut
    have size := wrote.size
    have fits := wrote.sound.fits
    have pos := wrote_positive before.sound continues wrote (by have := (cbufp2buf_some buffer).2.1; omega)
    right
    rcases ih with ⟨rfl, rfl, empty, none_⟩ | ⟨w, ws, r, rs, rfl, rfl, eq, later, block⟩
    · obtain rfl : offset = 0 := by omega
      have ret_ : ret = min sz.toNat minDataSz := by
        rcases wrote.allocated with same | new <;> omega
      refine ⟨⟨0, sz.toNat, cb⟩, [], ⟨cb, ret, 0⟩, [], rfl, rfl, by simp [ret_], .nil, ?_⟩
      rcases wrote.allocated with same | new <;> omega
    · refine ⟨w, ws ++ [⟨offset, sz.toNat, cb⟩], r, rs ++ [⟨cb, ret, offset⟩], rfl, rfl, eq, ?_, ?_⟩
      · refine rel_append later (.cons ⟨rfl, rfl, ?_⟩ .nil)
        change ret ≤ sz.toNat ∧ (ret = sz.toNat ∨ minDataSz < offset + ret)
        omega
      · rcases wrote.allocated with same | new <;> omega

theorem Chronicle.null (null : fso.data = none) : written = [] ∧ records = [] := by
  have empty := h.sound.null null
  rcases h.first with ⟨none_, noRecord, _⟩ | ⟨_, _, _, _, _, _, _, _, block⟩
  · exact ⟨none_, noRecord⟩
  · have atLeast : minDataSz = 256 := rfl
    omega

end

/-! ## The invariant over runs -/

/-- The file is the one of its history, and the ring holds the records with the newest in front. -/
def Tracks (mem : Buffers) (s : State) (written : List Written) : Prop :=
  ∃ records, Holds s.records records.reverse ∧ (s.file = none → written = [] ∧ records = []) ∧
    ∀ fso, s.file = some fso → Chronicle mem written records fso

variable {s s' : State}

theorem tracks_congr (h : Tracks mem s written) (file : s'.file = s.file)
    (records : s'.records = s.records) : Tracks mem s' written := by
  unfold Tracks
  rw [file, records]
  exact h

variable {fresh : Nat → Nat → UInt8} {tflags : Nat}

theorem tsplit_tracks {td : Option Td} {ret : Int} (h : Tracks mem s written)
    (split_ : tsplit mem s tflags td fresh = some (s', ret)) : Tracks mem s' written := by
  have same := h
  obtain ⟨records, holds, none_, some_⟩ := h
  have chronicle : Chronicle mem written records (s.file.getD ⟨0, 0, tflags, none⟩) := by
    cases file : s.file with
    | none =>
      obtain ⟨rfl, rfl⟩ := none_ file
      exact .start tflags
    | some fso => exact some_ fso file
  have recovered : ∀ {fso'}, recover mem s.records fresh (s.file.getD ⟨0, 0, tflags, none⟩) = some fso' →
      fso' = s.file.getD ⟨0, 0, tflags, none⟩ := by
    intro fso' recovered
    cases null : (s.file.getD ⟨0, 0, tflags, none⟩).data with
    | none =>
      obtain ⟨_, rfl⟩ := chronicle.null null
      rw [recover_replay holds null (by simp)] at recovered
      exact (some.inj recovered).symm
    | some =>
      rw [recover, if_pos (by simp [null])] at recovered
      exact (some.inj recovered).symm
  unfold tsplit at split_
  simp only at split_
  split at split_
  · cases split_
    exact same
  split at split_
  · cases split_
    refine ⟨records, holds, by simp, ?_⟩
    rintro fso ⟨⟩
    exact chronicle
  · split at split_
    · contradiction
    obtain ⟨fso', result, ⟨⟩⟩ := map_eq_some_iff.mp split_
    refine ⟨records, holds, by simp, ?_⟩
    rintro fso ⟨⟩
    rw [recovered result]
    exact chronicle

variable {td : Td}

theorem twritep_tracks {sz ret : Int} (malloc : Option (Nat → UInt8))
    {slab : Slab} (h : Tracks mem s written) (exit : WriteExit mem s td cb sz slab s' ret) :
    Tracks mem s' (noteWrite ⟨s, written⟩ ret (.twritep td cb sz malloc slab)) := by
  cases exit with
  | refused negative =>
    have same : noteWrite ⟨s, written⟩ ret (.twritep td cb sz malloc slab) = written := by
      simp only [noteWrite, not_lt.mpr negative.le]
      split <;> rfl
    rw [same]
    exact h
  | @wrote t fso fso1 fso' _ buf n ring torrent file continues buffer room copied recorded =>
    obtain ⟨records, holds, _, some_⟩ := h
    have chronicle := some_ fso file
    have wrote := makeRoom_wrote chronicle.sound continues room copied
    have pos := wrote_positive chronicle.sound continues wrote (by have := (cbufp2buf_some buffer).2.1; omega)
    have noted : noteWrite ⟨s, written⟩ n (.twritep td cb sz malloc slab) = written ++ [⟨t.offset, sz.toNat, cb⟩] := by
      simp [noteWrite, torrent, pos]
    rw [noted]
    refine ⟨records ++ [⟨cb, n, t.offset⟩], ?_, by simp, ?_⟩
    · rw [reverse_append]
      exact cbufpRecord_holds holds recorded
    · rintro _ ⟨⟩
      exact .write chronicle continues buffer wrote

theorem treadp_keeps {len : Int} {read : Option Read}
    (h : treadp s td len = some (s', read)) : s'.file = s.file ∧ s'.records = s.records := by
  unfold treadp at h
  split at h
  · cases h; exact ⟨rfl, rfl⟩
  split at h
  · cases h; exact ⟨rfl, rfl⟩
  obtain ⟨fso, _, h⟩ := bind_eq_some_iff.mp h
  split at h
  · split at h
    · cases h; exact ⟨rfl, rfl⟩
    simp only at h
    split at h
    · contradiction
    · obtain ⟨_, _, ⟨⟩⟩ := map_eq_some_iff.mp h
      exact ⟨rfl, rfl⟩
  · contradiction

theorem tracks_step {t t' : Tracked} {c : Call} (h : Tracks mem t.state t.written)
    (step : (fileSystem mem).step t c = some t') : Tracks mem t'.state t'.written := by
  obtain ⟨⟨s', ret⟩, called, rfl⟩ := map_eq_some_iff.mp step
  cases c with
  | tsplit => exact tsplit_tracks h called
  | twritep td cb sz malloc => exact twritep_tracks malloc h (twritep_exit called)
  | treadp =>
    obtain ⟨⟨s'', read⟩, result, ⟨⟩⟩ := map_eq_some_iff.mp called
    obtain ⟨file, records⟩ := treadp_keeps result
    exact tracks_congr h file records
  | twmetaOffset td offset =>
    have result := some.inj called
    unfold twmetaOffset at result
    split at result <;> cases result <;> exact tracks_congr h rfl rfl
  | trelease td =>
    have result := some.inj called
    unfold trelease at result
    split at result <;> cases result <;> exact tracks_congr h rfl rfl

theorem tracks_reachable {t : Tracked} (reached : Reachable (fileSystem mem) anyStep t) :
    Tracks mem t.state t.written := by
  refine reached.invariant (fun t => Tracks mem t.state t.written) ?_ ?_
  · exact ⟨[], noRecords_holds, fun _ => ⟨rfl, rfl⟩, by simp [fileSystem, start]⟩
  · intro t c t' tracks _ step
    exact tracks_step tracks step

/-! ## Replaying the records -/

/-- The record that is replayed last has the last word. -/
theorem replay_last {front : List Record} {r : Record}
    {i : Nat} (valid : Valid mem r) (h : replay mem fresh i (front ++ [r]) fso = some fso') :
    fso'.size = r.offset + r.len ∧ ∀ p, r.offset ≤ p → p < r.offset + r.len →
      fso'.byteAt p = some ((mem r.cbid).byte (p - r.offset)) := by
  induction front generalizing i fso with
  | nil =>
    simp only [nil_append, replay, valid.2.2, bind_some] at h
    obtain ⟨fso1, replayed, ⟨⟩⟩ := bind_eq_some_iff.mp h
    exact replayRecord_some replayed
  | cons first front ih =>
    obtain ⟨buf, _, h⟩ := bind_eq_some_iff.mp h
    obtain ⟨fso1, _, h⟩ := bind_eq_some_iff.mp h
    exact ih h

/-- Records that fit into the first block are all put back. -/
theorem replay_oneBlock (fresh : Nat → Nat → UInt8) (i : Nat) (one : fso.OneBlock) (valid : ∀ r ∈ records, Valid mem r)
    (fits : ∀ r ∈ records, r.offset + r.len ≤ minDataSz) : ∃ fso', replay mem fresh i records fso = some fso' := by
  induction records generalizing i fso with
  | nil => exact ⟨fso, rfl⟩
  | cons r rest ih =>
    obtain ⟨_, pos, buffer⟩ := valid r mem_cons_self
    obtain ⟨fso1, replayed, one1⟩ := replayRecord_oneBlock (mem r.cbid).byte (fresh i) one pos
      (fits r mem_cons_self)
    obtain ⟨fso', rest_⟩ := ih (i + 1) one1 (fun r member => valid r (mem_cons_of_mem _ member))
      fun r member => fits r (mem_cons_of_mem _ member)
    exact ⟨fso', by simp [replay, buffer, replayed, rest_]⟩

/-- After a reboot, the file is what the replay gives. -/
theorem rebuilt_replay (ids : 1 < td) (holds : Holds s.records records) (valid : ∀ r ∈ records, Valid mem r) :
    Rebuilt mem s tflags td fresh ↔ ∃ fso', replay mem fresh 0 records ⟨0, 0, tflags, none⟩ = some fso' ∧
      fso'.size = size s ∧ ∀ p, p < size s → fso'.byteAt p = byteAt s p := by
  have small : ¬ (td ≤ 1 ∨ ((reboot s).torrents td).isSome) := by
    simp [reboot]
    omega
  have recovered : recover mem (reboot s).records fresh ⟨0, 0, tflags, none⟩ =
      replay mem fresh 0 records ⟨0, 0, tflags, none⟩ :=
    recover_replay holds rfl fun r member => (valid r member).1
  have split_ : tsplit mem (reboot s) tflags (some td) fresh =
      (replay mem fresh 0 records ⟨0, 0, tflags, none⟩).map fun fso =>
        ({ reboot s with
           file := some fso
           torrents := Function.update (reboot s).torrents td (some ⟨0, tflags⟩) }, (td : Int)) := by
    rw [← recovered]
    unfold tsplit
    simp only [if_neg small]
    simp [reboot]
  unfold Rebuilt
  rw [split_]
  constructor
  · rintro ⟨s', result, sizes, bytes⟩
    obtain ⟨fso', replayed, eq⟩ := map_eq_some_iff.mp result
    obtain ⟨rfl, _⟩ := eq
    exact ⟨fso', replayed, sizes, bytes⟩
  · rintro ⟨fso', replayed, sizes, bytes⟩
    exact ⟨_, map_eq_some_iff.mpr ⟨fso', replayed, rfl⟩, sizes, bytes⟩

/-! ## When the file comes back -/

variable {ws : List Written} {rs : List Record}

theorem later_fits {n : Nat} (later : List.Forall₂ Later ws rs) (inside : n ≤ minDataSz) :
    (∀ w ∈ ws, w.offset + w.sz ≤ n) ↔ ∀ r ∈ rs, r.offset + r.len ≤ n := by
  induction later with
  | nil => simp
  | @cons w r ws rs first _ ih =>
    obtain ⟨offset, _, less, full⟩ := first
    have same : w.offset + w.sz ≤ n ↔ r.offset + r.len ≤ n := by omega
    simp [same, ih]

theorem later_patches (later : List.Forall₂ Later ws rs) (fits : ∀ r ∈ rs, r.offset + r.len ≤ minDataSz) :
    rs.map (recordPatch mem) = ws.map (Written.patch mem) := by
  induction later with
  | nil => rfl
  | @cons w r ws rs first _ ih =>
    obtain ⟨offset, cb, _, full⟩ := first
    have end_ := fits r mem_cons_self
    have len : r.len = w.sz := by omega
    simp [recordPatch, Written.patch, offset, cb, len, ih fun r member => fits r (mem_cons_of_mem _ member)]

/-- The replay of a first write and later ones. -/
theorem replay_iff {w : Written} {r : Record} (tflags : Nat) (fresh : Nat → Nat → UInt8)
    (chronicle : Chronicle mem (w :: ws) (r :: rs) fso) (first : r = ⟨w.cb, min w.sz minDataSz, 0⟩)
    (later : List.Forall₂ Later ws rs) :
    (∃ fso', replay mem fresh 0 (rs.reverse ++ [r]) ⟨0, 0, tflags, none⟩ = some fso' ∧
      fso'.size = fso.size ∧ ∀ p, p < fso.size → fso'.byteAt p = fso.byteAt p) ↔ FirstStands mem (w :: ws) := by
  have valid := chronicle.valid
  have block : min w.sz minDataSz ≤ minDataSz := min_le_right ..
  have whole : min w.sz minDataSz ≤ fso.size := by
    have ends := (chronicle.size_le fso.size).mp le_rfl r mem_cons_self
    rw [first] at ends
    simpa using ends
  -- while the file has the size of the first write, its bytes are those of the condition
  have bytes : fso.size = min w.sz minDataSz → (∀ r ∈ rs, r.offset + r.len ≤ minDataSz) →
      ∀ p, p < min w.sz minDataSz → fso.byteAt p = some (applyAll (ws.map (Written.patch mem)) (mem w.cb).byte p) := by
    intro size fits p inside
    rw [chronicle.bytes (mem w.cb).byte p (by omega), ← later_patches later fits, map_cons, applyAll_cons]
    congr 1
    apply applyAll_congr
    rw [first, recordPatch]
    exact apply_covered ⟨Nat.zero_le p, by simpa using inside⟩
  have last : ∀ {fso'}, replay mem fresh 0 (rs.reverse ++ [r]) ⟨0, 0, tflags, none⟩ = some fso' →
      fso'.size = min w.sz minDataSz ∧ ∀ p, p < min w.sz minDataSz → fso'.byteAt p = some ((mem w.cb).byte p) := by
    intro fso' replayed
    obtain ⟨size, bytes⟩ := replay_last (valid r mem_cons_self) replayed
    rw [first] at size bytes
    refine ⟨by simpa using size, fun p inside => ?_⟩
    simpa using bytes p (Nat.zero_le p) (by simpa using inside)
  constructor
  · rintro ⟨fso', replayed, sizes, same⟩
    obtain ⟨size', bytes'⟩ := last replayed
    have size : fso.size = min w.sz minDataSz := by omega
    have ends := (chronicle.size_le _).mp size.le
    have fits : ∀ r ∈ rs, r.offset + r.len ≤ min w.sz minDataSz := fun r member => ends r (mem_cons_of_mem _ member)
    refine ⟨(later_fits later block).mpr fits, ?_⟩
    intro p inside
    have agree := same p (by omega)
    rw [bytes' p inside, bytes size (fun r member => (fits r member).trans block) p inside] at agree
    exact (some.inj agree).symm
  · rintro ⟨inside, stands⟩
    have fits := (later_fits later block).mp inside
    have ends : ∀ r' ∈ r :: rs, r'.offset + r'.len ≤ min w.sz minDataSz := by
      intro r' member
      rcases mem_cons.mp member with rfl | member
      · simp [first]
      · exact fits r' member
    have size := le_antisymm ((chronicle.size_le _).mpr ends) whole
    have mirrored : ∀ r', r' ∈ rs.reverse ++ [r] → r' ∈ r :: rs := by simp [or_comm]
    have one : Fsobj.OneBlock ⟨0, 0, tflags, none⟩ := .inl ⟨rfl, rfl⟩
    obtain ⟨fso', replayed⟩ := replay_oneBlock fresh 0 one
      (fun r' member => valid r' (mirrored r' member))
      fun r' member => (ends r' (mirrored r' member)).trans block
    obtain ⟨size', bytes'⟩ := last replayed
    refine ⟨fso', replayed, by omega, ?_⟩
    intro p below
    rw [bytes' p (by omega), bytes size (fun r member => (fits r member).trans block) p (by omega),
      stands p (by omega)]

/-- Buffer 1 holds the letter A and buffer 2 the letter B, throughout. -/
def lettered : Buffers := fun cb => ⟨1, fun _ => if cb = 1 then 65 else 66⟩

def zeroes : Nat → UInt8 := fun _ => 0

end SuperGlue.Guarantees.FileRecovery
