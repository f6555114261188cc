import SuperGlue.Lib.Transition
import SuperGlue.Source.Mbox.Stub

/-!
# Delivery through a mailbox that may fail

What the reader gets should be what the writer has sent, in order and each buffer once, and the backup
should hold what was sent and not read. After a fault the writer sends the backup again through `twritep`,
whose first success clears the mark that keeps it from recording: what follows is recorded a second time.
So this holds as long as the server fails only when the backup has nothing to send again, that is, no buffer
in it but that of the unfinished call, and not while one of the two sides recovers.
-/
namespace SuperGlue.Guarantees.MailboxDelivery
open Bool Nat Option Function List Lib.Transition Lib.Circular Source.Stub.Cstub Source.Mbox.Stub

structure Observed where
  st : State
  /-- The buffers for which `twritep` has returned success. -/
  accepted : List Buf
  /-- The buffers that `treadp` has returned. -/
  delivered : List Buf

variable (o : Observed)

def acceptedNext : List Buf :=
  match o.st.writer.stack with
  | [.replied b ret entered] =>
    if entered = o.st.writer.link.faultCnt ∧ 0 < ret then o.accepted ++ [b] else o.accepted
  | _ => o.accepted

def deliveredNext : List Buf :=
  match o.st.reader.pc with
  | .replied (some b) entered =>
    if entered = o.st.reader.link.faultCnt ∧ 0 < b.cbid then o.delivered ++ [b] else o.delivered
  | _ => o.delivered

def observe (label : Label) : Option Observed :=
  (step o.st label).map fun st =>
    match label with
    | .runWriter => { o with st := st, accepted := acceptedNext o }
    | .runReader => { o with st := st, delivered := deliveredNext o }
    | _ => { o with st := st }

def mailboxSystem : System Observed Label := ⟨⟨init, [], []⟩, observe⟩

/-- The buffer of the unfinished call of the writer. -/
def unfinished (w : Writer) : List Buf :=
  match w.stack.getLast? with
  | some (.redo b) => [b]
  | some (.add b) => [b]
  | some (.invoke b) => [b]
  | some (.replied b _ _) => [b]
  | _ => []

structure Faithful (o : Observed) : Prop where
  /-- What was read is what was sent, up to the call that has not returned. -/
  order : o.delivered <+: o.accepted ++ unfinished o.st.writer
  /-- Between two calls of the writer, the backup has what was sent and not read. -/
  backup : o.st.writer.stack = [] → o.accepted = o.delivered ++ o.st.backup.contents
  /-- When no fault is left to be seen, it can be read. -/
  present : o.st.writer.stack = [] → o.st.reader.pc = .idle → o.st.writer.link.reaches →
    o.st.reader.link.reaches → o.st.server.ring o.st.reader.conn = some o.st.backup.contents
  writer : Frame.failed ∉ o.st.writer.stack
  reader : o.st.reader.pc ≠ .failed

/-! ## The condition -/

/-- The buffer of the unfinished call, once it is in the backup. -/
def recorded (w : Writer) : List Buf :=
  match w.stack with
  | [.redo b] => if w.fcnt = w.link.globalFaultCnt then [] else [b]
  | [.add b] => if w.beingRecovered then [b] else []
  | [.invoke b] => [b]
  | [.replied b _ _] => [b]
  | [_, .add b] => [b]
  | _ => []

/-- The writer has seen a fault and has not opened its connection again. -/
def writerRecovers (w : Writer) : Bool :=
  w.fcnt != w.link.globalFaultCnt ||
    match w.stack with
    | .split :: _ => true
    | .splitReplied _ _ :: _ => true
    | _ => false

def readerRecovers (r : Reader) : Bool :=
  r.fcnt != r.link.globalFaultCnt ||
    match r.pc with
    | .announce => true
    | .announced _ => true
    | .accept => true
    | .accepted _ _ => true
    | _ => false

def Careful : Label → Prop
  | .write b => 0 < b.cbid ∧ 1 ≤ b.sz ∧ o.st.backup.contents.length + 1 < mboxBufferSz
  | .read => True
  | .runWriter =>
    o.st.writer.link.globalFaultCnt + 1 < counterModulus ∧
      (o.st.writer.stack.head? = some .split → o.st.server.addr = true)
  | .runReader => o.st.reader.link.globalFaultCnt + 1 < counterModulus
  | .reboot =>
    o.st.backup.contents = recorded o.st.writer ∧ o.st.backup.tail + 1 < mboxBufferSz ∧
      writerRecovers o.st.writer = false ∧ readerRecovers o.st.reader = false

instance : DecidableRel Careful := by
  intro o label
  unfold Careful
  split <;> infer_instance

/-! ## Where the two sides are -/

def Good (b : Buf) : Prop := 0 < b.cbid ∧ 1 ≤ b.sz

/-- What a side has seen of the faults: `up` if all of them, and its record is as new. -/
structure Synced (link : Link) (fcnt : Nat) (up : Bool) : Prop where
  reaches : link.reaches = up
  fresh : fcnt = link.globalFaultCnt

/-- The stack of a writer that does not open its connection again, with what it has recorded and what of
it is not in the queue. `up` says that no fault is left to be seen. -/
inductive Calm (cnt : Nat) : Bool → Bool → List Frame → List Buf → List Buf → Prop where
  | idle {up : Bool} : Calm cnt up false [] [] []
  | redo {up : Bool} {b : Buf} (good : Good b) : Calm cnt up false [.redo b] [] []
  | add {up : Bool} {b : Buf} (good : Good b) : Calm cnt up false [.add b] [] []
  | addAgain {up : Bool} {b : Buf} : Calm cnt up true [.add b] [b] [b]
  | invoke {up flag : Bool} {b : Buf} : Calm cnt up flag [.invoke b] [b] [b]
  | put {flag : Bool} {b : Buf} : Calm cnt true flag [.replied b 1 cnt] [b] []
  | late {flag : Bool} {b : Buf} {ret : Int} {n : Nat} (lt : n < cnt) : Calm cnt false flag [.replied b ret n] [b] [b]
  | replay {up : Bool} {b : Buf} {i tot : Nat} (le : tot ≤ i) : Calm cnt up true [.replay i tot, .add b] [b] [b]

inductive WriterStage where
  /-- Without a connection since the last fault. -/
  | down
  /-- The server has opened one. -/
  | split (c : Nat)
  | up (c : Nat)

def calmStage (conn : Nat) : Bool → WriterStage
  | true => .up conn
  | false => .down

inductive WriterAt (w : Writer) : WriterStage → List Buf → List Buf → Prop where
  | calm {up : Bool} {cur unput : List Buf} (synced : Synced w.link w.fcnt up)
      (calm : Calm w.link.faultCnt up w.beingRecovered w.stack cur unput) : WriterAt w (calmStage w.conn up) cur unput
  | redo {b : Buf} (reaches : w.link.reaches = true) (stale : w.fcnt ≠ w.link.globalFaultCnt)
      (stack : w.stack = [.redo b]) : WriterAt w .down [b] [b]
  | split {b : Buf} (synced : Synced w.link w.fcnt true)
      (stack : w.stack = [.split, .add b]) : WriterAt w .down [b] [b]
  | splitReplied {b : Buf} {c : Nat} (synced : Synced w.link w.fcnt true)
      (stack : w.stack = [.splitReplied c w.link.faultCnt, .add b]) : WriterAt w (.split c) [b] [b]

/-- A reader that does not recover. -/
inductive Quiet (cnt : Nat) : Bool → Pc → Prop where
  | idle {up : Bool} : Quiet cnt up .idle
  | redo {up : Bool} : Quiet cnt up .redo
  | invoke {up : Bool} : Quiet cnt up .invoke
  | nothing : Quiet cnt true (.replied none cnt)
  | late {b : Option Buf} {n : Nat} (lt : n < cnt) : Quiet cnt false (.replied b n)

inductive ReaderStage where
  /-- The address was not created again since the last fault. -/
  | down
  /-- It was, but no connection was accepted. -/
  | waiting
  | joined (c : Nat)

inductive ReaderAt (r : Reader) : ReaderStage → List Buf → Prop where
  | unaware (synced : Synced r.link r.fcnt false)
      (quiet : Quiet r.link.faultCnt false r.pc) : ReaderAt r .down []
  | redo (reaches : r.link.reaches = true) (stale : r.fcnt ≠ r.link.globalFaultCnt) (pc : r.pc = .redo) :
      ReaderAt r .down []
  | announce (synced : Synced r.link r.fcnt true)
      (parent : r.parentFcnt = r.link.globalFaultCnt) (pc : r.pc = .announce) : ReaderAt r .down []
  | announced (synced : Synced r.link r.fcnt true)
      (parent : r.parentFcnt = r.link.globalFaultCnt) (pc : r.pc = .announced r.link.faultCnt) : ReaderAt r .waiting []
  | accept (synced : Synced r.link r.fcnt true)
      (parent : r.parentFcnt = r.link.globalFaultCnt) (pc : r.pc = .accept) : ReaderAt r .waiting []
  | accepted {c : Nat} (synced : Synced r.link r.fcnt true)
      (pc : r.pc = .accepted c r.link.faultCnt) : ReaderAt r (.joined c) []
  | up (synced : Synced r.link r.fcnt true)
      (quiet : Quiet r.link.faultCnt true r.pc) : ReaderAt r (.joined r.conn) []
  | holding {b : Buf} (synced : Synced r.link r.fcnt true)
      (pc : r.pc = .replied (some b) r.link.faultCnt) : ReaderAt r (.joined r.conn) [b]

/-- The connection that the writer has or will have. -/
def WriterStage.target : WriterStage → Option Nat
  | .down => none
  | .split c => some c
  | .up c => some c

/-- How the two sides meet again after a fault. -/
inductive Epoch (server : Server) : WriterStage → ReaderStage → Prop where
  | lost (addr : server.addr = false) (pending : server.pending = []) : Epoch server .down .down
  | announced (pending : server.pending = []) : Epoch server .down .waiting
  | offered {c : Nat} {ws : WriterStage} (target : ws.target = some c) (pending : server.pending = [c]) :
      Epoch server ws .waiting
  | joined {c : Nat} {ws : WriterStage} (target : ws.target = some c) (pending : server.pending = []) :
      Epoch server ws (.joined c)

structure Regular (o : Observed) (ws : WriterStage) (rs : ReaderStage) (cur unput held : List Buf) : Prop where
  writerLag : o.st.writer.link.capCnt ≤ o.st.writer.link.faultCnt
  readerLag : o.st.reader.link.capCnt ≤ o.st.reader.link.faultCnt
  writer : WriterAt o.st.writer ws cur unput
  reader : ReaderAt o.st.reader rs held
  epoch : Epoch o.st.server ws rs
  balance : o.accepted ++ cur = o.delivered ++ o.st.backup.contents
  good : ∀ b ∈ o.st.backup.contents, Good b
  room : o.st.writer.stack ≠ [] → o.st.backup.contents.length + 1 < mboxBufferSz + cur.length
  /-- Without a connection there is nothing to send again. -/
  apart : (∀ c, ws ≠ .up c) → o.st.backup.contents = cur ∧ o.st.backup.tail + 1 < mboxBufferSz
  /-- What was read and not deleted, what is in the queue and what is not there yet. -/
  queue : ∀ c, ws.target = some c → ∃ ring, o.st.server.ring c = some ring ∧
    o.st.backup.contents = held ++ ring ++ unput

/-! ## The writer -/

variable {o o' : Observed} {ws ws' : WriterStage} {rs rs' : ReaderStage} {cur unput held : List Buf} {server : Server}

theorem target_none (h : ws.target = none) : ws = .down := by
  cases ws with
  | down => rfl
  | split c | up c => nomatch h

theorem Epoch.congr (h : Epoch server ws rs) (same : ws'.target = ws.target) : Epoch server ws' rs := by
  cases h with
  | lost addr pending =>
    rw [target_none same]
    exact .lost addr pending
  | announced pending =>
    rw [target_none same]
    exact .announced pending
  | offered target pending => exact .offered (same.trans target) pending
  | joined target pending => exact .joined (same.trans target) pending

variable {w : Writer} {c : Nat}

theorem WriterAt.connected (conn : w.conn = c) (synced : Synced w.link w.fcnt true)
    (calm : Calm w.link.faultCnt true w.beingRecovered w.stack cur unput) : WriterAt w (.up c) cur unput := by
  rw [← conn]
  exact .calm synced calm

/-- The writer goes on, and nothing else changes. -/
theorem Regular.moveWriter (h : Regular o ws rs cur unput held) (busy : o.st.writer.stack ≠ [])
    (lag : w.link.capCnt ≤ w.link.faultCnt) (at_ : WriterAt w ws' cur unput) (same : ws'.target = ws.target)
    (down : (∀ c, ws' ≠ .up c) → ∀ c, ws ≠ .up c) :
    Regular { o with st := { o.st with writer := w } } ws' rs cur unput held where
  writerLag := lag
  readerLag := h.readerLag
  writer := at_
  reader := h.reader
  epoch := h.epoch.congr same
  balance := h.balance
  good := h.good
  room := fun _ => h.room busy
  apart := fun off => h.apart (down off)
  queue := fun c target => h.queue c (same.symm.trans target)

variable {s : State} {b : Buf} {stack : List Frame}

theorem acceptedNext_other (at_ : o.st.writer.stack = stack) (off : ∀ b ret n, stack ≠ [.replied b ret n]) :
    acceptedNext o = o.accepted := by
  subst at_
  unfold acceptedNext
  split
  next at_ => exact absurd at_ (off _ _ _)
  · rfl

/-- A fault is seen: the call starts again, with its buffer in the backup. -/
theorem Regular.seesFault (h : Regular o .down rs [b] [b] held)
    (synced : Synced o.st.writer.link o.st.writer.fcnt false) (busy : o.st.writer.stack ≠ [])
    (bound : o.st.writer.link.globalFaultCnt + 1 < counterModulus) :
    Regular { o with st := writerFaultUpdate o.st [.redo b] } .down rs [b] [b] held := by
  have fault := Link.failed h.writerLag (eq_false_iff.mp synced.reaches)
  rw [writerFaultUpdate, Link.faultUpdate_eq fault bound]
  refine h.moveWriter busy (Nat.le_refl _) (.redo (beq_self_eq_true _) ?_ rfl) rfl id
  rw [synced.fresh]
  exact Nat.ne_of_lt (lt_succ_self _)

variable {up : Bool}

/-- The buffer of the call is recorded. -/
theorem Regular.record {n : Backup} (h : Regular o (calmStage o.st.writer.conn up) rs [] [] held)
    (synced : Synced o.st.writer.link o.st.writer.fcnt up)
    (stack : o.st.writer.stack = [.add b]) (good : Good b) (added : uniqMapAdd o.st.backup b = some n) :
    Regular { o with st := { o.st with backup := n }.writing [.invoke b] } (calmStage o.st.writer.conn up) rs [b] [b] held := by
  have nonzero := Int.ne_of_gt good.1
  rw [uniqMapAdd, if_neg nonzero] at added
  cases added
  have room : o.st.backup.length + 1 < mboxBufferSz := by
    have room := h.room (by rw [stack]; exact nofun)
    rwa [length_contents] at room
  have contents := contents_push (v := b) room
  refine ⟨h.writerLag, h.readerLag, .calm synced .invoke, h.reader, h.epoch, ?_, ?_, ?_, ?_, ?_⟩
  · change o.accepted ++ [b] = o.delivered ++ (o.st.backup.push b).contents
    have balance := h.balance
    rw [append_nil] at balance
    rw [contents, balance, append_assoc]
  · change ∀ x ∈ (o.st.backup.push b).contents, Good x
    rw [contents]
    intro x mem
    rcases mem_append.mp mem with old | new
    · exact h.good x old
    · rw [mem_singleton.mp new]
      exact good
  · intro _
    change (o.st.backup.push b).contents.length + 1 < mboxBufferSz + 1
    rw [contents, length_append, length_contents]
    exact succ_lt_succ room
  · intro off
    change (o.st.backup.push b).contents = [b] ∧ o.st.backup.tail + 1 < mboxBufferSz
    obtain ⟨none, inside⟩ := h.apart off
    rw [contents, none]
    exact ⟨rfl, inside⟩
  · intro c target
    obtain ⟨ring, found, split⟩ := h.queue c target
    refine ⟨ring, found, ?_⟩
    change (o.st.backup.push b).contents = _
    rw [contents, split, append_nil]

section

variable (synced : Synced o.st.writer.link o.st.writer.fcnt true)
include synced

/-- The server puts the buffer into the queue. -/
theorem Regular.put (h : Regular o (.up c) rs [b] [b] held) (conn : o.st.writer.conn = c)
    (stack : o.st.writer.stack = [.invoke b]) :
    Regular { o with st := ({ o.st with server := (mboxPut o.st.server c b).1 }.writing
      [.replied b (mboxPut o.st.server c b).2 o.st.writer.link.faultCnt]) } (.up c) rs [b] [] held := by
  obtain ⟨ring, found, split⟩ := h.queue c rfl
  have good : Good b := h.good b (by rw [split]; exact mem_append_right _ (mem_singleton_self b))
  have room : ¬ mboxBufferSz ≤ ring.length + 1 := by
    have bound := length_lt o.st.backup
    rw [← length_contents, split, length_append, length_append, length_singleton] at bound
    omega
  have put : mboxPut o.st.server c b = (o.st.server.setRing c (ring ++ [b]), 1) := by
    rw [mboxPut, found]
    dsimp only
    rw [if_neg (Int.not_lt.mpr good.2), if_neg room]
  rw [put]
  refine ⟨h.writerLag, h.readerLag, .connected conn synced .put, h.reader, ?_, h.balance, h.good, ?_, ?_, ?_⟩
  · cases h.epoch with
    | offered target pending => exact .offered target pending
    | joined target pending => exact .joined target pending
  · exact fun _ => h.room (by rw [stack]; exact nofun)
  · exact fun off => absurd rfl (off _)
  · intro c' target
    cases target
    refine ⟨ring ++ [b], update_self .., ?_⟩
    rw [append_nil, ← append_assoc]
    exact split

/-- The call returns. -/
theorem Regular.returned (h : Regular o (.up c) rs [b] [] held) (conn : o.st.writer.conn = c) : Regular { o with
      st := { o.st with writer := { o.st.writer with beingRecovered := false, stack := [] } }
      accepted := o.accepted ++ [b] } (.up c) rs [] [] held := by
  refine ⟨h.writerLag, h.readerLag, .connected conn synced .idle, h.reader, h.epoch, ?_, h.good, ?_, ?_, h.queue⟩
  · rw [append_nil]
    exact h.balance
  · exact fun busy => absurd rfl busy
  · exact fun off => absurd rfl (off _)

/-- The server opens a new connection. -/
theorem Regular.connect (h : Regular o .down .waiting [b] [b] []) (stack : o.st.writer.stack = [.split, .add b]) :
    Regular { o with st := ({ o.st with server := o.st.server.connect }.writing
      [.splitReplied o.st.server.next o.st.writer.link.faultCnt, .add b]) }
      (.split o.st.server.next) .waiting [b] [b] [] := by
  have pending : o.st.server.pending = [] := by
    cases h.epoch with
    | announced pending => exact pending
    | offered target => nomatch target
  have apart := h.apart fun _ => nofun
  refine ⟨h.writerLag, h.readerLag, .splitReplied synced rfl, h.reader, ?_, h.balance, h.good, ?_, fun _ => apart, ?_⟩
  · refine .offered rfl ?_
    change o.st.server.pending ++ [o.st.server.next] = _
    rw [pending]
    rfl
  · exact fun _ => h.room (by rw [stack]; exact nofun)
  · intro c target
    cases target
    exact ⟨[], update_self .., apart.1⟩

/-- There is nothing to send again but the buffer of the call. -/
theorem Regular.recovered (h : Regular o (.split c) rs [b] [b] held) (busy : o.st.writer.stack ≠ []) :
    Regular { o with st := recovered o.st c [.add b] } (.up c) rs [b] [b] held := by
  obtain ⟨contents, inside⟩ := h.apart fun _ => nofun
  have good : Good b := h.good b (by rw [contents]; exact mem_singleton_self b)
  obtain ⟨head, slot⟩ := contents_singleton contents inside
  have total : uniqMapTotal o.st.backup = some 1 := by
    have above : ¬ o.st.backup.head < o.st.backup.tail := by omega
    have nonzero : o.st.backup.head ≠ 0 := by omega
    have before : o.st.backup.head - 1 = o.st.backup.tail := by omega
    have one : o.st.backup.head - o.st.backup.tail = 1 := by omega
    have last : ¬ b.cbid = 0 := Int.ne_of_gt good.1
    rw [uniqMapTotal, if_neg above]
    dsimp only
    rw [if_neg nonzero, before, slot, if_neg last, one]
  have state : Source.Mbox.Stub.recovered o.st c [.add b] = { o.st with writer := { o.st.writer with
      conn := c, beingRecovered := true, stack := [.replay 1 1, .add b] } } := by
    rw [Source.Mbox.Stub.recovered, total]
  rw [state]
  exact h.moveWriter busy h.writerLag (.connected rfl synced (.replay (Nat.le_refl 1))) rfl fun off => absurd rfl (off c)

end

variable {flag : Bool}

section

variable (h : Regular o (calmStage o.st.writer.conn up) rs cur unput held)
  (synced : Synced o.st.writer.link o.st.writer.fcnt up)
include h synced

/-- The writer goes on without an invocation. -/
theorem Regular.goto (busy : o.st.writer.stack ≠ []) (same : o.st.writer.beingRecovered = flag)
    (calm : Calm o.st.writer.link.faultCnt up flag stack cur unput) :
    Regular { o with st := o.st.writing stack } (calmStage o.st.writer.conn up) rs cur unput held := by
  subst same
  exact h.moveWriter busy h.writerLag (.calm synced calm) rfl id

theorem Regular.writesCalm
    (calm : Calm o.st.writer.link.faultCnt up o.st.writer.beingRecovered o.st.writer.stack cur unput)
    (bound : o.st.writer.link.globalFaultCnt + 1 < counterModulus) (taken : twritep o.st = some s) :
    ∃ ws' cur' unput', Regular { o with st := s, accepted := acceptedNext o } ws' rs cur' unput' held := by
  rw [twritep] at taken
  generalize stack : o.st.writer.stack = frames at calm taken
  generalize flag : o.st.writer.beingRecovered = again at calm
  have busy : frames ≠ [] → o.st.writer.stack ≠ [] := fun some => by rwa [stack]
  cases calm with
  | idle => nomatch taken
  | redo good =>
    dsimp only at taken
    rw [if_pos synced.fresh] at taken
    cases taken
    rw [acceptedNext_other stack nofun]
    exact ⟨_, _, _, h.goto synced (busy nofun) flag (.add good)⟩
  | @add _ b good =>
    dsimp only at taken
    rw [flag] at taken
    rw [acceptedNext_other stack nofun]
    have added : uniqMapAdd o.st.backup b = some (o.st.backup.push b) := if_neg (Int.ne_of_gt good.1)
    rw [added] at taken
    cases taken
    exact ⟨_, _, _, h.record synced stack good added⟩
  | addAgain =>
    rw [flag] at taken
    cases taken
    rw [acceptedNext_other stack nofun]
    exact ⟨_, _, _, h.goto synced (busy nofun) flag .invoke⟩
  | invoke =>
    dsimp only at taken
    rw [acceptedNext_other stack nofun]
    cases up with
    | true =>
      rw [if_pos synced.reaches] at taken
      cases taken
      exact ⟨_, _, _, h.put synced rfl stack⟩
    | false =>
      rw [synced.reaches] at taken
      cases taken
      exact ⟨_, _, _, h.seesFault synced (busy nofun) bound⟩
  | @put _ b =>
    have accepted : acceptedNext o = o.accepted ++ [b] := by
      simp only [acceptedNext, stack]
      exact if_pos ⟨trivial, Int.one_pos⟩
    dsimp only at taken
    rw [if_pos rfl] at taken
    cases taken
    rw [accepted]
    exact ⟨_, _, _, h.returned synced rfl⟩
  | @late _ b ret n lt =>
    have accepted : acceptedNext o = o.accepted := by
      simp only [acceptedNext, stack]
      exact if_neg fun both => absurd both.1 (Nat.ne_of_lt lt)
    dsimp only at taken
    rw [if_neg (Nat.ne_of_lt lt)] at taken
    cases taken
    rw [accepted]
    exact ⟨_, _, _, h.seesFault synced (busy nofun) bound⟩
  | replay le =>
    dsimp only at taken
    rw [if_neg (Nat.not_lt.mpr le)] at taken
    cases taken
    rw [acceptedNext_other stack nofun]
    exact ⟨_, _, _, h.goto synced (busy nofun) flag .addAgain⟩

end

theorem Regular.waiting (h : Regular o .down rs cur unput held) (addr : o.st.server.addr) :
    rs = .waiting ∧ held = [] := by
  have reader := h.reader
  cases h.epoch with
  | lost missing =>
    rw [addr] at missing
    nomatch missing
  | announced => cases reader with
    | announced => exact ⟨rfl, rfl⟩
    | accept => exact ⟨rfl, rfl⟩
  | offered target _ | joined target _ => nomatch target

theorem Regular.writes (h : Regular o ws rs cur unput held) (careful : Careful o .runWriter)
    (taken : twritep o.st = some s) :
    ∃ ws' cur' unput', Regular { o with st := s, accepted := acceptedNext o } ws' rs cur' unput' held := by
  obtain ⟨bound, addr⟩ := careful
  have writer := h.writer
  cases writer with
  | calm synced calm => exact h.writesCalm synced calm bound taken
  | redo reaches stale stack =>
    simp only [twritep, stack] at taken
    rw [if_neg stale] at taken
    cases taken
    rw [acceptedNext_other stack nofun]
    exact ⟨_, _, _, h.moveWriter (by rw [stack]; exact nofun) h.writerLag (.split ⟨reaches, rfl⟩ rfl) rfl id⟩
  | split synced stack =>
    have addr := addr (by rw [stack]; rfl)
    obtain ⟨rfl, rfl⟩ := h.waiting addr
    simp only [twritep, stack] at taken
    rw [synced.reaches, addr] at taken
    cases taken
    rw [acceptedNext_other stack nofun]
    exact ⟨_, _, _, h.connect synced stack⟩
  | splitReplied synced stack =>
    simp only [twritep, stack] at taken
    cases taken
    rw [acceptedNext_other stack nofun]
    exact ⟨_, _, _, h.recovered synced (by rw [stack]; exact nofun)⟩

/-! ## The reader -/

variable {r : Reader}

/-- The reader goes on; the server may do something for it that leaves the queues alone. -/
theorem Regular.moveReader {held' : List Buf} (h : Regular o ws rs cur unput held)
    (lag : r.link.capCnt ≤ r.link.faultCnt) (at_ : ReaderAt r rs' held') (epoch : Epoch server ws rs')
    (same : held' = held) (rings : server.ring = o.st.server.ring) :
    Regular { o with st := { o.st with server, reader := r } } ws rs' cur unput held' := by
  subst same
  refine ⟨h.writerLag, lag, h.writer, at_, epoch, h.balance, h.good, h.room, h.apart, ?_⟩
  intro c target
  obtain ⟨ring, found, split⟩ := h.queue c target
  exact ⟨ring, (congrFun rings c).trans found, split⟩

theorem Regular.readerSeesFault (h : Regular o ws .down cur unput [])
    (synced : Synced o.st.reader.link o.st.reader.fcnt false)
    (bound : o.st.reader.link.globalFaultCnt + 1 < counterModulus) :
    Regular { o with st := readerFaultUpdate o.st .redo } ws .down cur unput [] := by
  have fault := Link.failed h.readerLag (eq_false_iff.mp synced.reaches)
  rw [readerFaultUpdate, Link.faultUpdate_eq fault bound]
  refine h.moveReader (Nat.le_refl _) (.redo (beq_self_eq_true _) ?_ rfl) h.epoch rfl rfl
  rw [synced.fresh]
  exact Nat.ne_of_lt (lt_succ_self _)

theorem deliveredNext_other {pc : Pc} (at_ : o.st.reader.pc = pc) (off : ∀ b n, pc ≠ .replied (some b) n) :
    deliveredNext o = o.delivered := by
  subst at_
  unfold deliveredNext
  split
  next at_ => exact absurd at_ (off _ _)
  · rfl

/-- A reader that has not seen the fault. -/
theorem Regular.readsUnaware (h : Regular o ws .down cur unput [])
    (synced : Synced o.st.reader.link o.st.reader.fcnt false) (quiet : Quiet o.st.reader.link.faultCnt false o.st.reader.pc)
    (bound : o.st.reader.link.globalFaultCnt + 1 < counterModulus) (taken : treadp o.st = some s) :
    Regular { o with st := s, delivered := deliveredNext o } ws .down cur unput [] := by
  rw [treadp] at taken
  generalize at_ : o.st.reader.pc = pc at quiet taken
  cases quiet with
  | idle => nomatch taken
  | redo =>
    rw [if_pos synced.fresh] at taken
    cases taken
    rw [deliveredNext_other at_ nofun]
    exact h.moveReader h.readerLag (.unaware synced .invoke) h.epoch rfl rfl
  | invoke =>
    rw [synced.reaches] at taken
    cases taken
    rw [deliveredNext_other at_ nofun]
    exact h.readerSeesFault synced bound
  | @late b n lt =>
    have delivered : deliveredNext o = o.delivered := by
      cases b with
      | none => exact deliveredNext_other at_ nofun
      | some =>
        simp only [deliveredNext, at_]
        exact if_neg fun both => absurd both.1 (Nat.ne_of_lt lt)
    dsimp only at taken
    rw [if_neg (Nat.ne_of_lt lt)] at taken
    cases taken
    rw [delivered]
    exact h.readerSeesFault synced bound

/-- The queue that a joined reader reads. -/
theorem Regular.joined (h : Regular o ws (.joined c) cur unput held) : ws.target = some c ∧ o.st.server.pending = [] ∧
      ∃ ring, o.st.server.ring c = some ring ∧ o.st.backup.contents = held ++ ring ++ unput := by
  cases h.epoch with
  | joined target pending => exact ⟨target, pending, h.queue c target⟩

/-- The server takes a buffer out of the queue. -/
theorem Regular.get {ring : List Buf} (h : Regular o ws (.joined o.st.reader.conn) cur unput [])
    (synced : Synced o.st.reader.link o.st.reader.fcnt true)
    (found : o.st.server.ring o.st.reader.conn = some (b :: ring)) :
    Regular { o with st := ({ o.st with server := o.st.server.setRing o.st.reader.conn ring }.reading
      (.replied (some b) o.st.reader.link.faultCnt)) } ws (.joined o.st.reader.conn) cur unput [b] := by
  obtain ⟨target, pending, _⟩ := h.joined
  refine ⟨h.writerLag, h.readerLag, h.writer, .holding synced rfl, .joined target pending, h.balance, h.good,
    h.room, h.apart, ?_⟩
  intro c here
  cases target.symm.trans here
  obtain ⟨ring', found', split⟩ := h.queue _ target
  cases found.symm.trans found'
  exact ⟨ring, update_self .., split⟩

/-- While a buffer is held the writer has its connection. -/
theorem Regular.writer_up (h : Regular o ws (.joined c) cur unput [b]) : ws = .up c := by
  obtain ⟨target, _, ring, _, split⟩ := h.joined
  have apart := h.apart
  cases h.writer with
  | @calm up => cases up with
    | true =>
      cases target
      rfl
    | false => nomatch target
  | redo | split => nomatch target
  | splitReplied =>
    -- what is recorded is one buffer, which is still to be sent
    rw [(apart fun _ => nofun).1] at split
    have lengths := congrArg List.length split
    simp only [length_append, length_singleton] at lengths
    omega

/-- The reader deletes what it has read and returns it. -/
theorem Regular.finish (h : Regular o ws (.joined o.st.reader.conn) cur unput [b])
    (synced : Synced o.st.reader.link o.st.reader.fcnt true) : Regular { o with
      st := { o.st with backup := o.st.backup.pop ⟨0, 0⟩ }.reading .idle
      delivered := o.delivered ++ [b] } ws (.joined o.st.reader.conn) cur unput [] := by
  obtain rfl := h.writer_up
  obtain ⟨target, pending, ring, found, split⟩ := h.joined
  have popped : (o.st.backup.pop ⟨0, 0⟩).contents = ring ++ unput := contents_pop _ split
  refine ⟨h.writerLag, h.readerLag, h.writer, .up synced .idle, .joined target pending, ?_, ?_, ?_, ?_, ?_⟩
  · change o.accepted ++ cur = o.delivered ++ [b] ++ (o.st.backup.pop ⟨0, 0⟩).contents
    rw [h.balance, split, popped, append_assoc, append_assoc]
  · intro x mem
    change x ∈ (o.st.backup.pop ⟨0, 0⟩).contents at mem
    rw [popped] at mem
    refine h.good x ?_
    rw [split, append_assoc]
    exact mem_append_right _ mem
  · intro busy
    change (o.st.backup.pop ⟨0, 0⟩).contents.length + 1 < _
    have room := h.room busy
    rw [split, append_assoc, length_append] at room
    rw [popped]
    omega
  · exact fun off => absurd rfl (off _)
  · intro c here
    cases here
    exact ⟨ring, found, popped⟩

/-- A reader with a connection. -/
theorem Regular.readsUp (h : Regular o ws (.joined o.st.reader.conn) cur unput [])
    (synced : Synced o.st.reader.link o.st.reader.fcnt true)
    (quiet : Quiet o.st.reader.link.faultCnt true o.st.reader.pc) (taken : treadp o.st = some s) :
    ∃ held', Regular { o with st := s, delivered := deliveredNext o } ws (.joined o.st.reader.conn) cur unput held' := by
  rw [treadp] at taken
  generalize at_ : o.st.reader.pc = pc at quiet taken
  have delivered : deliveredNext o = o.delivered := by
    refine deliveredNext_other at_ ?_
    cases quiet <;> exact nofun
  rw [delivered]
  cases quiet with
  | idle => nomatch taken
  | redo =>
    rw [if_pos synced.fresh] at taken
    cases taken
    exact ⟨_, h.moveReader h.readerLag (.up synced .invoke) h.epoch rfl rfl⟩
  | invoke =>
    dsimp only at taken
    rw [if_pos synced.reaches] at taken
    cases taken
    obtain ⟨_, _, ring, found, _⟩ := h.joined
    cases ring with
    | nil =>
      have got : mboxGet o.st.server o.st.reader.conn = (o.st.server, none) := by rw [mboxGet, found]
      rw [got]
      exact ⟨_, h.moveReader h.readerLag (.up synced .nothing) h.epoch rfl rfl⟩
    | cons b ring =>
      have got : mboxGet o.st.server o.st.reader.conn = (o.st.server.setRing o.st.reader.conn ring, some b) := by
        rw [mboxGet, found]
      rw [got]
      exact ⟨_, h.get synced found⟩
  | nothing =>
    dsimp only at taken
    rw [if_pos rfl] at taken
    cases taken
    exact ⟨_, h.moveReader h.readerLag (.up synced .idle) h.epoch rfl rfl⟩

theorem Regular.reads (h : Regular o ws rs cur unput held) (careful : Careful o .runReader)
    (taken : treadp o.st = some s) :
    ∃ rs' held', Regular { o with st := s, delivered := deliveredNext o } ws rs' cur unput held' := by
  have reader := h.reader
  have epoch := h.epoch
  cases reader with
  | unaware synced quiet => exact ⟨_, _, h.readsUnaware synced quiet careful taken⟩
  | redo reaches stale pc =>
    simp only [treadp, pc] at taken
    rw [if_neg stale] at taken
    cases taken
    rw [deliveredNext_other pc nofun]
    exact ⟨_, _, h.moveReader h.readerLag (.announce ⟨reaches, rfl⟩ rfl rfl) epoch rfl rfl⟩
  | announce synced parent pc =>
    simp only [treadp, pc] at taken
    rw [if_pos synced.reaches] at taken
    cases taken
    rw [deliveredNext_other pc nofun]
    cases epoch with
    | lost addr pending =>
      rw [announceServed, addr]
      exact ⟨_, _, h.moveReader h.readerLag (.announced synced parent rfl) (.announced pending) rfl rfl⟩
  | announced synced parent pc =>
    simp only [treadp, pc] at taken
    cases taken
    rw [deliveredNext_other pc nofun]
    exact ⟨_, _, h.moveReader h.readerLag (.accept synced parent rfl) epoch rfl rfl⟩
  | accept synced parent pc =>
    simp only [treadp, pc] at taken
    rw [if_neg (not_not_intro parent), if_pos synced.reaches] at taken
    rw [deliveredNext_other pc nofun]
    cases epoch with
    | announced pending =>
      rw [pending] at taken
      nomatch taken
    | offered target pending =>
      rw [pending] at taken
      cases taken
      exact ⟨_, _, h.moveReader h.readerLag (.accepted synced rfl) (.joined target rfl) rfl rfl⟩
  | accepted synced pc =>
    simp only [treadp, pc] at taken
    cases taken
    rw [deliveredNext_other pc nofun]
    exact ⟨_, _, h.moveReader h.readerLag (.up synced .invoke) epoch rfl rfl⟩
  | up synced quiet => exact ⟨_, h.readsUp synced quiet taken⟩
  | @holding b synced pc =>
    obtain ⟨_, _, ring, _, split⟩ := h.joined
    have good : Good b := h.good b (by rw [split, append_assoc]; exact mem_append_left _ (mem_singleton_self b))
    have delivered : deliveredNext o = o.delivered ++ [b] := by
      simp only [deliveredNext, pc]
      exact if_pos ⟨trivial, good.1⟩
    have deleted : uniqMapDel o.st.backup b.cbid = some (o.st.backup.pop ⟨0, 0⟩) := if_neg (Int.ne_of_gt good.1)
    simp only [treadp, pc] at taken
    cases taken
    rw [delivered, readServed, if_pos good.1, deleted]
    exact ⟨_, _, h.finish synced⟩

/-! ## Calls and faults -/

variable {cnt : Nat}

theorem Calm.of_idle (h : Calm cnt up flag [] cur unput) : flag = false ∧ cur = [] ∧ unput = [] := by
  cases h with
  | idle => exact ⟨rfl, rfl, rfl⟩

/-- Between two calls. -/
theorem WriterAt.of_idle (h : WriterAt w ws cur unput) (idle : w.stack = []) :
    w.fcnt = w.link.globalFaultCnt ∧ w.beingRecovered = false ∧ cur = [] ∧ unput = [] ∧
      ws = calmStage w.conn w.link.reaches := by
  cases h with
  | calm synced calm =>
    rw [idle] at calm
    obtain ⟨flag, rfl, rfl⟩ := calm.of_idle
    exact ⟨synced.fresh, flag, rfl, rfl, by rw [synced.reaches]⟩
  | redo _ _ stack | split _ stack | splitReplied _ stack => nomatch idle.symm.trans stack

theorem Synced.fail {l : Link} {fcnt : Nat} (h : Synced l fcnt up) (lag : l.capCnt ≤ l.faultCnt) :
    Synced l.trigger fcnt false :=
  ⟨beq_eq_false_iff_ne.mpr (Nat.ne_of_lt (lt_succ_of_le lag)), h.fresh⟩

/-- What a fault leaves of a calm writer: nothing of what it has recorded is in the queue. -/
theorem Calm.fail (h : Calm cnt up flag stack cur unput) : Calm (cnt + 1) false flag stack cur cur := by
  cases h with
  | idle => exact .idle
  | redo good => exact .redo good
  | add good => exact .add good
  | addAgain => exact .addAgain
  | invoke => exact .invoke
  | put => exact .late (lt_succ_self _)
  | late lt => exact .late (lt_succ_of_lt lt)
  | replay le => exact .replay le

theorem Quiet.fail {pc : Pc} (h : Quiet cnt up pc) : Quiet (cnt + 1) false pc := by
  cases h with
  | idle => exact .idle
  | redo => exact .redo
  | invoke => exact .invoke
  | nothing => exact .late (lt_succ_self _)
  | late lt => exact .late (lt_succ_of_lt lt)

theorem Calm.recorded_eq (h : Calm cnt up w.beingRecovered w.stack cur unput)
    (fresh : w.fcnt = w.link.globalFaultCnt) : recorded w = cur := by
  obtain ⟨link, fcnt, conn, flag, stack⟩ := w
  cases h with
  | idle => rfl
  | redo => exact if_pos fresh
  | add | addAgain | invoke | put | late | replay => rfl

theorem WriterAt.fail (h : WriterAt w ws cur unput) (lag : w.link.capCnt ≤ w.link.faultCnt)
    (settled : writerRecovers w = false) :
    recorded w = cur ∧ WriterAt { w with link := w.link.trigger } .down cur cur := by
  have steady := or_eq_false_iff.mp settled
  cases h with
  | calm synced calm =>
    have failed := WriterAt.calm (w := { w with link := w.link.trigger }) (synced.fail lag) calm.fail
    exact ⟨calm.recorded_eq synced.fresh, failed⟩
  | redo _ stale => exact absurd (bne_eq_false_iff_eq.mp steady.1) stale
  | split _ stack | splitReplied _ stack =>
    rw [stack] at steady
    nomatch steady.2

theorem ReaderAt.fail (h : ReaderAt r rs held) (lag : r.link.capCnt ≤ r.link.faultCnt)
    (settled : readerRecovers r = false) : ReaderAt { r with link := r.link.trigger } .down [] := by
  have steady := or_eq_false_iff.mp settled
  cases h with
  | unaware synced quiet | up synced quiet => exact .unaware (synced.fail lag) quiet.fail
  | holding synced pc =>
    refine .unaware (synced.fail lag) ?_
    rw [pc]
    exact .late (lt_succ_self _)
  | redo _ stale => exact absurd (bne_eq_false_iff_eq.mp steady.1) stale
  | announce _ _ pc | announced _ _ pc | accept _ _ pc | accepted _ pc =>
    rw [pc] at steady
    nomatch steady.2

theorem Regular.fail (h : Regular o ws rs cur unput held) (careful : Careful o .reboot) :
    Regular { o with st := reboot o.st } .down .down cur cur [] := by
  obtain ⟨contents, inside, writer, reader⟩ := careful
  obtain ⟨cur_eq, writerAt⟩ := h.writer.fail h.writerLag writer
  refine ⟨le_succ_of_le h.writerLag, le_succ_of_le h.readerLag, writerAt, h.reader.fail h.readerLag reader,
    .lost rfl rfl, h.balance, h.good, h.room, fun _ => ⟨contents.trans cur_eq, inside⟩, nofun⟩

/-! ## Every run -/

theorem Regular.next {label : Label} (h : Regular o ws rs cur unput held) (careful : Careful o label)
    (taken : observe o label = some o') : ∃ ws' rs' cur' unput' held', Regular o' ws' rs' cur' unput' held' := by
  obtain ⟨s, stepped, rfl⟩ := map_eq_some_iff.mp taken
  cases label with
  | write b =>
    obtain ⟨idle, same⟩ := ite_none_right_eq_some.mp stepped
    cases same
    obtain ⟨pos, size, room⟩ := careful
    obtain ⟨fresh, flag, rfl, rfl, rfl⟩ := h.writer.of_idle idle
    have calm : Calm o.st.writer.link.faultCnt o.st.writer.link.reaches o.st.writer.beingRecovered [.redo b] [] [] := by
      rw [flag]
      exact .redo ⟨pos, size⟩
    exact ⟨_, _, _, _, _, h.writerLag, h.readerLag, .calm ⟨rfl, fresh⟩ calm, h.reader, h.epoch, h.balance, h.good,
      fun _ => room, h.apart, h.queue⟩
  | read =>
    obtain ⟨idle, same⟩ := ite_none_right_eq_some.mp stepped
    cases same
    have reader := h.reader
    cases reader with
    | unaware synced => exact ⟨_, _, _, _, _, h.moveReader h.readerLag (.unaware synced .redo) h.epoch rfl rfl⟩
    | up synced => exact ⟨_, _, _, _, _, h.moveReader h.readerLag (.up synced .redo) h.epoch rfl rfl⟩
    | redo _ _ pc | announce _ _ pc | announced _ _ pc | accept _ _ pc | accepted _ pc | holding _ pc =>
      nomatch idle.symm.trans pc
  | runWriter =>
    obtain ⟨ws', cur', unput', next⟩ := h.writes careful stepped
    exact ⟨_, _, _, _, _, next⟩
  | runReader =>
    obtain ⟨rs', held', next⟩ := h.reads careful stepped
    exact ⟨_, _, _, _, _, next⟩
  | reboot =>
    cases stepped
    exact ⟨_, _, _, _, _, h.fail careful⟩

theorem init_regular : Regular mailboxSystem.init (.up 0) (.joined 0) [] [] [] where
  writerLag := Nat.le_refl 0
  readerLag := Nat.le_refl 0
  writer := .connected rfl ⟨rfl, rfl⟩ .idle
  reader := .up ⟨rfl, rfl⟩ .idle
  epoch := .joined rfl rfl
  balance := rfl
  good := nofun
  room := fun busy => absurd rfl busy
  apart := fun off => absurd rfl (off 0)
  queue := fun c target => by
    cases target
    exact ⟨[], rfl, rfl⟩

theorem Calm.cur_prefix (h : Calm cnt up w.beingRecovered w.stack cur unput) : cur <+: unfinished w := by
  obtain ⟨link, fcnt, conn, flag, stack⟩ := w
  cases h with
  | idle | redo | add => exact nil_prefix
  | addAgain | invoke | put | late | replay => exact prefix_refl _

/-- What is recorded for a call is its buffer. -/
theorem WriterAt.cur_prefix (h : WriterAt w ws cur unput) : cur <+: unfinished w := by
  cases h with
  | calm _ calm => exact calm.cur_prefix
  | redo _ _ stack | split _ stack | splitReplied _ stack =>
    rw [unfinished, stack]
    exact prefix_refl _

theorem Calm.not_failed (h : Calm cnt up flag stack cur unput) : Frame.failed ∉ stack := by
  cases h <;> simp

theorem WriterAt.not_failed (h : WriterAt w ws cur unput) : Frame.failed ∉ w.stack := by
  cases h with
  | calm _ calm => exact calm.not_failed
  | redo _ _ stack | split _ stack | splitReplied _ stack => simp [stack]

theorem ReaderAt.not_failed (h : ReaderAt r rs held) : r.pc ≠ .failed := by
  intro failed
  cases h with
  | unaware _ quiet | up _ quiet =>
    rw [failed] at quiet
    nomatch quiet
  | redo _ _ pc | announce _ _ pc | announced _ _ pc | accept _ _ pc | accepted _ pc | holding _ pc => nomatch failed.symm.trans pc

/-- Between two calls, when it has seen every fault. -/
theorem ReaderAt.of_idle (h : ReaderAt r rs held) (idle : r.pc = .idle) (reaches : r.link.reaches) :
    rs = .joined r.conn ∧ held = [] := by
  cases h with
  | unaware synced =>
    rw [synced.reaches] at reaches
    nomatch reaches
  | up => exact ⟨rfl, rfl⟩
  | redo _ _ pc | announce _ _ pc | announced _ _ pc | accept _ _ pc | accepted _ pc | holding _ pc => nomatch idle.symm.trans pc

theorem Regular.faithful (h : Regular o ws rs cur unput held) : Faithful o where
  order := by
    have whole : o.delivered <+: o.accepted ++ cur := by
      rw [h.balance]
      exact prefix_append _ _
    exact whole.trans ((prefix_append_right_inj _).mpr h.writer.cur_prefix)
  backup := by
    intro idle
    obtain ⟨_, _, rfl, _, _⟩ := h.writer.of_idle idle
    exact (append_nil _).symm.trans h.balance
  present := by
    intro idle quiet writer reader
    obtain ⟨_, _, rfl, rfl, _⟩ := h.writer.of_idle idle
    obtain ⟨rfl, rfl⟩ := h.reader.of_idle quiet reader
    obtain ⟨_, _, ring, found, split⟩ := h.joined
    rw [found, split, nil_append, append_nil]
  writer := h.writer.not_failed
  reader := h.reader.not_failed

/-- A buffer is written and read, the server fails, both sides recover and another one is written and read. -/
def faultBetween : List Label :=
  List.flatten [[.write ⟨1, 1⟩], List.replicate 4 .runWriter, [.read], List.replicate 3 .runReader,
    [.reboot, .read], List.replicate 5 .runReader, [.write ⟨2, 1⟩], List.replicate 10 .runWriter,
    List.replicate 4 .runReader]

/-- The server fails while buffer 1 is not read. Buffer 2 is then recorded twice, and after the next fault it
is sent again although it was read. -/
def twiceRecorded : List Label :=
  List.flatten [[.write ⟨1, 1⟩], List.replicate 4 .runWriter, [.reboot, .read], List.replicate 5 .runReader,
    [.write ⟨2, 1⟩], List.replicate 15 .runWriter, List.replicate 4 .runReader,
    [.read], List.replicate 3 .runReader, [.reboot, .read], List.replicate 5 .runReader,
    [.write ⟨3, 1⟩], List.replicate 10 .runWriter, List.replicate 4 .runReader]

end SuperGlue.Guarantees.MailboxDelivery
