import SuperGlue.Lib.Circular
import SuperGlue.Source.Stub.Cstub

/-!
# A mailbox and its recovery stub

`interface/rtorrent/__stubs_rec_mbox/c_stub.c` for one mailbox: a client that writes and a server that
reads, each through its own instance of the stub. With it, the parts they rely on: the queue of
`torrent/async_conn/__as_connector_rec` in this direction, and the backup of the written buffers in
`uniq_map/fs_map/uniq_map.c`.

A stub runs from one invocation to the next. `rd_recover_state` writes the backup through `twritep`, so the
writer has a stack of unfinished calls. A thread that waits for an event is one whose step is not enabled.
A failed assertion leaves its thread in `failed`.
-/
namespace SuperGlue.Source.Mbox.Stub
open Lib.Circular Source.Stub.Cstub

/-- A buffer id and the size that is sent with it. -/
structure Buf where
  cbid : Int
  sz : Int
  deriving DecidableEq, Repr

/-! ## The backup -/

def mboxBufferSz : Nat := 256

/-- `struct trie_node` of the mailbox, with `cbid` and `size` as one array. -/
abbrev Backup := Buffer mboxBufferSz Buf

def Backup.empty : Backup := ⟨fun _ => ⟨0, 0⟩, 0, 0, by decide, by decide⟩

def uniqMapAdd (n : Backup) (b : Buf) : Option Backup := if b.cbid = 0 then none else some (n.push b)

/-- The oldest entry is deleted, whatever the id. -/
def uniqMapDel (n : Backup) (cbid : Int) : Option Backup := if cbid = 0 then none else some (n.pop ⟨0, 0⟩)

/-- `uniq_map_reflection` for the number of entries. In front of the array there is `tail`. -/
def uniqMapTotal (n : Backup) : Option Nat :=
  if n.head < n.tail then none
  else
    let last : Int := if n.head = 0 then n.tail else (n.slot (n.head - 1)).cbid
    some (if last = 0 then 0 else n.head - n.tail)

/-- `uniq_map_reflection` for an entry, as its caller unpacks it. -/
def uniqMapEntry (n : Backup) (cnt : Nat) : Buf :=
  let b := n.slot (n.tail + cnt - 1)
  ⟨b.cbid % 2 ^ 16, b.sz % 2 ^ 16⟩

/-! ## The mailbox server -/

structure Server where
  /-- The address of the mailbox exists. -/
  addr : Bool
  /-- The connections, with the buffers on their way to the reader. -/
  ring : Nat → Option (List Buf)
  /-- The connections that were not accepted yet. -/
  pending : List Nat
  /-- The next connection. -/
  next : Nat

def eagain : Int := -11
def einval : Int := -22
def ealready : Int := -114

variable (s : Server)

def Server.setRing (c : Nat) (ring : List Buf) : Server :=
  { s with ring := Function.update s.ring c (some ring) }

def Server.connect : Server :=
  { s.setRing s.next [] with pending := s.pending ++ [s.next], next := s.next + 1 }

/-- `mbox_put`. -/
def mboxPut (c : Nat) (b : Buf) : Server × Int :=
  match s.ring c with
  | none => (s, einval)
  | some ring =>
    if b.sz < 1 then (s, eagain)
    else if mboxBufferSz ≤ ring.length + 1 then (s, ealready)
    else (s.setRing c (ring ++ [b]), 1)

/-- `mbox_get`, with the size of the buffer beside its id. -/
def mboxGet (c : Nat) : Server × Option Buf :=
  match s.ring c with
  | some (b :: ring) => (s.setRing c ring, some b)
  | _ => (s, none)

/-! ## The writer -/

inductive Frame where
  /-- At `redo` of `twritep`. -/
  | redo (b : Buf)
  /-- Past `rd_update`. -/
  | add (b : Buf)
  | invoke (b : Buf)
  | replied (b : Buf) (ret : Int) (entered : Nat)
  /-- At the `tsplit` of `rd_recover_state`. -/
  | split
  | splitReplied (c : Nat) (entered : Nat)
  /-- In the loop of `rd_recover_state`. -/
  | replay (i tot : Nat)
  | failed
  deriving DecidableEq, Repr

/-- The stub of the client, with `struct rec_data_tor` of its torrent. -/
structure Writer where
  link : Link
  fcnt : Nat
  /-- `s_tid`. -/
  conn : Nat
  beingRecovered : Bool
  stack : List Frame

/-! ## The reader -/

inductive Pc where
  | idle
  /-- At `redo` of `treadp`. -/
  | redo
  /-- At the `tsplit` that creates the address. -/
  | announce
  | announced (entered : Nat)
  /-- At the `tsplit` that accepts a connection. -/
  | accept
  | accepted (c : Nat) (entered : Nat)
  | invoke
  | replied (b : Option Buf) (entered : Nat)
  | failed
  deriving DecidableEq, Repr

/-- The stub of the server side, with the records of its connection and of the address. -/
structure Reader where
  link : Link
  fcnt : Nat
  parentFcnt : Nat
  conn : Nat
  pc : Pc

structure State where
  server : Server
  backup : Backup
  writer : Writer
  reader : Reader

/-- A mailbox with one connection. -/
def init : State :=
  ⟨⟨true, Function.update (fun _ => none) 0 (some []), [], 1⟩, .empty,
    ⟨Link.init, 0, 0, false, []⟩, ⟨Link.init, 0, 0, 0, .idle⟩⟩

/-! ## `twritep` -/

variable (s : State)

def State.writing (stack : List Frame) : State := { s with writer := { s.writer with stack := stack } }

def writerFaultUpdate (stack : List Frame) : State :=
  match s.writer.link.faultUpdate with
  | some link => { s with writer := { s.writer with link := link, stack := stack } }
  | none => s.writing [.failed]

/-- The end of the `tsplit` in `rd_recover_state`, up to its loop. -/
def recovered (c : Nat) (rest : List Frame) : State :=
  match uniqMapTotal s.backup with
  | none => s.writing [.failed]
  | some tot =>
    { s with writer := { s.writer with conn := c, beingRecovered := true, stack := .replay 1 tot :: rest } }

def twritep : Option State :=
  let w := s.writer
  match w.stack with
  | [] => none
  | .failed :: _ => none
  | .redo b :: rest =>
    if w.fcnt = w.link.globalFaultCnt then some (s.writing (.add b :: rest))
    else
      some { s with writer := { w with fcnt := w.link.globalFaultCnt, stack := .split :: .add b :: rest } }
  | .split :: rest =>
    if w.link.reaches = false then some (writerFaultUpdate s (.split :: rest))
    else if s.server.addr = false then some (s.writing [.failed])
    else
      some ({ s with server := s.server.connect }.writing (.splitReplied s.server.next w.link.faultCnt :: rest))
  | .splitReplied c entered :: rest =>
    if entered = w.link.faultCnt then some (recovered s c rest)
    else some (writerFaultUpdate s (.split :: rest))
  | .replay i tot :: rest =>
    if i < tot then some (s.writing (.redo (uniqMapEntry s.backup i) :: .replay (i + 1) tot :: rest))
    else some (s.writing rest)
  | .add b :: rest =>
    if w.beingRecovered then some (s.writing (.invoke b :: rest))
    else
      match uniqMapAdd s.backup b with
      | none => some (s.writing [.failed])
      | some backup => some ({ s with backup := backup }.writing (.invoke b :: rest))
  | .invoke b :: rest =>
    if w.link.reaches then
      let (server, ret) := mboxPut s.server w.conn b
      some ({ s with server := server }.writing (.replied b ret w.link.faultCnt :: rest))
    else some (writerFaultUpdate s (.redo b :: rest))
  | .replied b _ entered :: rest =>
    if entered = w.link.faultCnt then
      some { s with writer := { w with beingRecovered := false, stack := rest } }
    else some (writerFaultUpdate s (.redo b :: rest))

/-! ## `treadp` -/

def State.reading (pc : Pc) : State := { s with reader := { s.reader with pc := pc } }

def readerFaultUpdate (pc : Pc) : State :=
  match s.reader.link.faultUpdate with
  | some link => { s with reader := { s.reader with link := link, pc := pc } }
  | none => s.reading .failed

/-- `tsplit` with the path of the mailbox: if the address is there already, the caller becomes its client. -/
def announceServed (server : Server) : Server :=
  if server.addr then server.connect else { server with addr := true }

/-- What was read is deleted from the backup. -/
def readServed (b : Option Buf) : State :=
  match b with
  | none => s.reading .idle
  | some b =>
    if 0 < b.cbid then
      match uniqMapDel s.backup b.cbid with
      | none => s.reading .failed
      | some backup => { s with backup := backup }.reading .idle
    else s.reading .idle

def treadp : Option State :=
  let r := s.reader
  match r.pc with
  | .idle => none
  | .failed => none
  | .redo =>
    if r.fcnt = r.link.globalFaultCnt then some (s.reading .invoke)
    else
      some { s with reader := { r with
        fcnt := r.link.globalFaultCnt, parentFcnt := r.link.globalFaultCnt, pc := .announce } }
  | .announce =>
    if r.link.reaches then
      some ({ s with server := announceServed s.server }.reading (.announced r.link.faultCnt))
    else some (readerFaultUpdate s .announce)
  | .announced entered =>
    if entered = r.link.faultCnt then some (s.reading .accept) else some (readerFaultUpdate s .announce)
  | .accept =>
    if r.parentFcnt ≠ r.link.globalFaultCnt then
      some { s with reader := { r with parentFcnt := r.link.globalFaultCnt, pc := .announce } }
    else if r.link.reaches then
      match s.server.pending with
      | [] => none
      | c :: _ =>
        -- the head of the list is unlinked, so the others are lost
        some ({ s with server := { s.server with pending := [] } }.reading (.accepted c r.link.faultCnt))
    else some (readerFaultUpdate s .accept)
  | .accepted c entered =>
    if entered = r.link.faultCnt then some { s with reader := { r with conn := c, pc := .invoke } }
    else some (readerFaultUpdate s .accept)
  | .invoke =>
    if r.link.reaches then
      let (server, b) := mboxGet s.server r.conn
      some ({ s with server := server }.reading (.replied b r.link.faultCnt))
    else some (readerFaultUpdate s .redo)
  | .replied b entered =>
    if entered = r.link.faultCnt then some (readServed s b) else some (readerFaultUpdate s .redo)

/-! ## Steps -/

inductive Label where
  /-- The client calls `twritep`. -/
  | write (b : Buf)
  /-- The server side calls `treadp`. -/
  | read
  | runWriter
  | runReader
  /-- The mailbox server fails and is started again. -/
  | reboot
  deriving DecidableEq, Repr

def reboot : State :=
  { s with
    server := { s.server with addr := false, ring := fun _ => none, pending := [] }
    writer := { s.writer with link := s.writer.link.trigger }
    reader := { s.reader with link := s.reader.link.trigger } }

def step : Label → Option State
  | .write b => if s.writer.stack = [] then some (s.writing [.redo b]) else none
  | .read => if s.reader.pc = .idle then some (s.reading .redo) else none
  | .runWriter => twritep s
  | .runReader => treadp s
  | .reboot => some (reboot s)

end SuperGlue.Source.Mbox.Stub
