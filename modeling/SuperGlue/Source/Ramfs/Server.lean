import SuperGlue.Lib.FiniteMap
import SuperGlue.Source.Ramfs.Tree

/-!
# The RAM file system

`torrent/ramfs/__ramfs_rec` with `torlib.c`: the torrents, the objects they are open on, the ids of the files and
the records of their writes, which two other components keep when the file system fails. The contents of the files
are those of `Ramfs.File`, here there are only their sizes.

Every call but `twmeta` holds the lock from its start to its end. `twmeta`, which takes no lock, sets one field of a
torrent and is a step of its own too, so that calls run one after the other. The root object is at the address 0.
-/
namespace SuperGlue.Source.Ramfs.Server
open Function Lib.FiniteMap UniqMap.Names Ramfs.Tree

def minDataSz : Nat := 256
def enomem : Int := -12
def eacces : Int := -13
def einval : Int := -22

def tdNull : Nat := 0
def tdRoot : Nat := 1
def torIsUsrdef (td : Nat) : Bool := !(td == tdNull || td == tdRoot)

/-- `struct torrent`. -/
structure Torrent where
  td : Int
  offset : Nat
  flags : BitVec 32
  data : Nat
  deriving DecidableEq, Repr

/-- A write, as the buffer manager has it on record. -/
structure Record where
  len : Nat
  offset : Nat
  deriving DecidableEq, Repr

structure State where
  obj : Heap
  torrents : Table Nat Torrent
  /-- `idmapping_vect`. -/
  tiduniq : Nat → Option Nat
  uniq : NameMap
  /-- The records of each id, the newest first. -/
  records : Nat → List Record
  /-- What the last call returned. -/
  ret : Int
  /-- The lock of `torlib.c` was not given back. -/
  metaLocked : Bool
  failed : Option Fault

def rootTorrent : Torrent := ⟨tdRoot, 0, 0, 0⟩

/-- `cos_init`. -/
def cosInit (uniq : NameMap) (records : Nat → List Record) : State :=
  ⟨update (fun _ => none) 0 (some fsInitRoot), Table.empty.set tdRoot rootTorrent, fun _ => none, uniq,
    records, 0, false, none⟩

def init : State := cosInit .init fun _ => []

variable (s : State)

def State.returns (ret : Int) : State := { s with ret := ret }

def State.fail (fault : Fault) : State := { s with failed := some fault }

/-- The rest of a call, where what came before it may fail. -/
def State.after {α : Type} (s : State) (x : Except Fault α) (rest : α → State) : State :=
  match x with
  | .ok a => rest a
  | .error fault => s.fail fault

def torLookup (td : Nat) : Except Fault (Option Torrent) :=
  match s.torrents.get td with
  | none => .ok none
  | some t => if t.td = td then .ok (some t) else .error .assertion

/-! ## Recovering the data -/

def newSz (allocated : Nat) : Nat := if allocated = 0 then minDataSz else allocated * 2

/-- The loop of `__twmeta`: the file and the offset of the torrent after the records. -/
def replay : Fsobj → Nat → List Record → Except Fault (Fsobj × Nat)
  | fso, offset, [] => .ok (fso, offset)
  | fso, _, r :: rest =>
    let size := r.offset + r.len
    if size ≤ fso.allocated then replay { fso with size := size } r.offset rest
    -- the size is set already, so more is copied from the old block than it has
    else if fso.data ∨ newSz fso.allocated < size then .error .overrun
    else replay { fso with data := true, allocated := newSz fso.allocated, size := size } r.offset rest

def checkBounds (t : Torrent) (fso : Fsobj) : Except Fault Unit :=
  if fso.size ≤ fso.allocated ∧ t.offset ≤ fso.size then .ok () else .error .bounds

/-- `assert(idmapping)` and what it maps to. -/
def tiduniqLookup (td : Nat) : Except Fault Nat :=
  match s.tiduniq td with
  | some id => .ok id
  | none => .error .assertion

/-- `__twmeta`; `mapped` says that `cbufp2buf` finds all buffers. -/
def recoverData (td : Nat) (t : Torrent) (mapped : Bool) : State :=
  s.after (access s.obj t.data) fun fso =>
    s.after (checkBounds t fso) fun _ =>
      s.after (tiduniqLookup s td) fun id =>
        if mapped = false ∧ s.records id ≠ [] then s.fail .assertion
        else
          s.after (replay fso t.offset (s.records id)) fun (fso, offset) =>
            { s with
              obj := update s.obj t.data (some fso)
              torrents := s.torrents.set td { t with offset := offset } }

/-! ## `tsplit` -/

/-- The answers that `tsplit` gets: the memory of an object with what its path pointed to before, what the memory of
the path has behind its first part, the torrent, a new id and whether the buffers are there. -/
structure Answers where
  object : Option Nat
  stale : Option Str
  dirt : Str
  torrent : Option Nat
  id : Nat
  mapped : Bool
  deriving DecidableEq, Repr

/-- The end of `tsplit`: a file without data that was written before is recovered. -/
def restore (fsc : Fsobj) (td : Nat) (nt : Torrent) (id : Nat) (mapped : Bool) : State :=
  if fsc.data = false ∧ s.records id ≠ [] then
    let s := recoverData s td nt mapped
    if s.failed = none then { s with torrents := s.torrents.set td { nt with offset := 0 }, ret := td } else s
  else s.returns td

/-- The part of `tsplit` behind `tor_alloc`. -/
def identify (fsc : Fsobj) (td : Nat) (nt : Torrent) (a : Answers) : State :=
  if fsc.uniquePath = [] then s.fail .assertion
  else
    match uniqMapLookup s.uniq fsc.uniquePath a.id with
    | none => s.fail .overrun
    | some (uniq, id) =>
      restore { s with uniq := uniq, tiduniq := update s.tiduniq td (some id) } fsc td nt id a.mapped

/-- The part of `tsplit` from `fsobj_take` on. -/
def openObject (o : Nat) (tflags : BitVec 32) (a : Answers) : State :=
  s.after (fsobjTake s.obj o) fun obj =>
    match a.torrent with
    | none => s.after (fsobjRelease obj o) fun obj => { s with obj := obj, ret := enomem }
    | some td =>
      s.after (access obj o) fun fsc =>
        let nt : Torrent := ⟨td, 0, tflags, o⟩
        identify { s with obj := obj, torrents := s.torrents.set td nt } fsc td nt a

/-- The path that a new object gets. Its field is not cleared before, and neither is the memory that `strcat` runs
over. -/
def newPath (fso : Fsobj) (param : Str) (a : Answers) : Str :=
  match a.stale with
  | some path => path
  | none => fso.uniquePath ++ a.dirt ++ param

/-- `fsobj_alloc` below a directory. -/
def fsobjAlloc (h : Heap) (subpath : Str) (parent : Nat) (p : Fsobj) (tflags : BitVec 32) (path : Str)
    (object : Option Nat) : Option (Nat × Heap) :=
  match childName subpath, object with
  | some (name, dir), some o => some (o, fsobjChildAdd h o parent (fsobjCons name dir tflags path) p)
  | _, _ => none

def tsplit (td : Nat) (param : Str) (tflags : BitVec 32) (a : Answers) : State :=
  s.after (torLookup s td) fun
    | none => s.returns einval
    | some t =>
      s.after (access s.obj t.data) fun fso =>
        s.after (fsobjPath2obj s.obj param t.data) fun
          | .found o =>
            s.after (access s.obj o) fun fsc =>
              if ~~~fsc.flags &&& tflags ≠ 0 then s.returns eacces else openObject s o tflags a
          | .missing parent subpath =>
            s.after (access s.obj parent) fun p =>
              if p.flags &&& torSplit = 0 then s.returns eacces
              else
                match fsobjAlloc s.obj subpath parent p tflags (newPath fso param a) a.object with
                | none => s.returns einval
                | some (o, obj) => openObject { s with obj := obj } o tflags a

/-! ## `twritep` and `treadp` -/

/-- The part of `twritep` that makes room: the new file, and how many bytes it takes. Without a result there is no
memory. -/
def makeRoom (fso : Fsobj) (offset sz : Nat) (memory : Bool) : Option (Fsobj × Nat) :=
  if offset + sz ≤ fso.allocated then some ({ fso with size := max fso.size (offset + sz) }, sz)
  else if memory = false then none
  else
    let ret := min sz (newSz fso.allocated - offset)
    some ({ fso with data := true, allocated := newSz fso.allocated, size := offset + ret }, ret)

/-- `twritep`; `memory` is the answer of `malloc`, and `mapped` that of `cbufp2buf`, which finds no buffer without a
length. -/
def twritep (td : Nat) (sz : Int) (mapped memory : Bool) : State :=
  if td = tdNull then s.returns einval
  else
    s.after (torLookup s td) fun
      | none => s.returns einval
      | some t =>
        if t.flags &&& torWrite = 0 then s.returns eacces
        else
          s.after (access s.obj t.data) fun fso =>
            s.after (checkBounds t fso) fun _ =>
              if mapped = false ∨ sz ≤ 0 then s.fail .assertion
              else
                match makeRoom fso t.offset sz.toNat memory with
                | none => s.returns enomem
                | some (fso, ret) =>
                  let s := { s with
                    obj := update s.obj t.data (some fso)
                    torrents := s.torrents.set td { t with offset := t.offset + ret } }
                  s.after (tiduniqLookup s td) fun id =>
                    { s with records := update s.records id (⟨ret, t.offset⟩ :: s.records id), ret := ret }

/-- `treadp`, with the number of bytes as its result. There is no buffer without a length. -/
def treadp (td : Nat) (len : Int) : State :=
  if td = tdNull then s.returns einval
  else
    s.after (torLookup s td) fun
      | none => s.returns einval
      | some t =>
        if t.flags &&& torRead = 0 then s.returns eacces
        else
          s.after (access s.obj t.data) fun fso =>
            s.after (checkBounds t fso) fun _ =>
              if fso.size = 0 then s.returns 0
              else
                let ret := min ((fso.size : Int) - t.offset) len
                if ret ≤ 0 ∨ fso.data = false then s.fail .assertion
                else
                  { s with torrents := s.torrents.set td { t with offset := t.offset + ret.toNat }, ret := ret }

/-! ## `tmerge` and `trelease` -/

/-- `tor_free`. -/
def torFree (td : Nat) : State := { s with torrents := s.torrents.erase td }

def tmerge (td tdInto : Nat) : State :=
  if torIsUsrdef td = false then s.returns (-1)
  else
    s.after (torLookup s td) fun
      | none => s.returns einval
      | some t =>
        if tdInto ≠ tdNull then s.returns einval
        else
          s.after (access s.obj t.data) fun fso =>
            match fso.parent with
            | none => s.fail .assertion
            | some parent =>
              if fso.child ≠ [] then s.returns einval
              else
                s.after (access s.obj parent) fun p =>
                  s.after (fsobjFree (fsobjRem s.obj t.data parent fso p) t.data) fun obj =>
                    torFree { s with obj := obj, ret := 0 } td

def trelease (td : Nat) : State :=
  if torIsUsrdef td = false then s
  else
    s.after (torLookup s td) fun
      | none => s
      | some t => s.after (fsobjRelease s.obj t.data) fun obj => torFree { s with obj := obj } td

/-! ## `twmeta` -/

def metaTd : Str := [116, 100]
def metaOffset : Str := [111, 102, 102, 115, 101, 116]
def metaFlags : Str := [102, 108, 97, 103, 115]
def metaEvtid : Str := [101, 118, 116, 105, 100]
def metaData : Str := [100, 97, 116, 97]

/-- The digits at the front of a string. -/
def digits : Nat → Str → Nat
  | n, [] => n
  | n, c :: rest => if 48 ≤ c ∧ c ≤ 57 then digits (10 * n + (c - 48).toNat) rest else n

def isSpace (c : UInt8) : Bool := c == 32 || (9 ≤ c && c ≤ 13)

def atoi (val : Str) : Int :=
  match val.dropWhile isSpace with
  | 45 :: rest => -(digits 0 rest)
  | 43 :: rest => digits 0 rest
  | rest => digits 0 rest

/-- What a key stands for. As many characters are compared as the key has. -/
inductive Key where
  | td | offset | flags | evtid | data
  deriving DecidableEq, Repr

def metaKey (key : Str) : Option Key :=
  if key.isPrefixOf metaTd then some .td
  else if key.isPrefixOf metaOffset then some .offset
  else if key.isPrefixOf metaFlags then some .flags
  else if key.isPrefixOf metaEvtid then some .evtid
  else if key.isPrefixOf metaData then some .data
  else none

/-- `twmeta`. The two checks of a length return with the lock held. -/
def twmeta (td : Nat) (key : Str) (klen : Nat) (val : Str) (vlen : Nat) (mapped : Bool) : State :=
  s.after (torLookup s td) fun
    | none => s.returns (-1)
    | some t =>
      if key.length ≠ klen ∨ val.length ≠ vlen then { s with metaLocked := true, ret := -1 }
      else
        match metaKey key with
        | some .td => { s with torrents := s.torrents.set td { t with td := atoi val }, ret := 0 }
        | some .offset =>
          { s with torrents := s.torrents.set td { t with offset := (atoi val % 2 ^ 32).toNat }, ret := 0 }
        | some .flags =>
          { s with torrents := s.torrents.set td { t with flags := BitVec.ofInt 32 (atoi val) }, ret := 0 }
        | some .evtid => s.returns 0
        | some .data => (recoverData s td t mapped).returns 0
        | none => s.returns (-1)

/-! ## Steps -/

inductive Label where
  | tsplit (td : Nat) (param : Str) (tflags : BitVec 32) (a : Answers)
  | twritep (td : Nat) (sz : Int) (mapped memory : Bool)
  | treadp (td : Nat) (len : Int)
  | twmeta (td : Nat) (key : Str) (klen : Nat) (val : Str) (vlen : Nat) (mapped : Bool)
  | tmerge (td tdInto : Nat)
  | trelease (td : Nat)
  /-- The file system is started again. -/
  | reboot
  deriving DecidableEq, Repr

/-- Memory, torrents and ids are not handed out twice. -/
def Answers.fresh (a : Answers) (s : State) : Bool :=
  a.object.all (fun o => s.obj o = none) && a.torrent.all (fun td => torIsUsrdef td && s.torrents.get td = none) &&
    !s.uniq.used a.id

def step : Label → Option State
  | .reboot => some (cosInit s.uniq s.records)
  | .tsplit td param tflags a =>
    if s.failed = none ∧ a.fresh s = true then some (tsplit s td param tflags a) else none
  | .twritep td sz mapped memory => if s.failed = none then some (twritep s td sz mapped memory) else none
  | .treadp td len => if s.failed = none then some (treadp s td len) else none
  | .twmeta td key klen val vlen mapped =>
    if s.failed = none ∧ s.metaLocked = false then some (twmeta s td key klen val vlen mapped) else none
  | .tmerge td tdInto => if s.failed = none then some (tmerge s td tdInto) else none
  | .trelease td => if s.failed = none then some (trelease s td) else none

end SuperGlue.Source.Ramfs.Server
