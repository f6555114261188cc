import SuperGlue.Lib.Transition
import SuperGlue.Lib.FiniteMap
import SuperGlue.Source.Stub.Cstub

/-!
# The client stub of the lock component

`interface/lock/__stubs_rec/__c_stub.c` with the part of `lock/two_phase/__lock_rec` that gives server
ids their meaning. A client knows its locks by ids of its own; the record of a client id holds the
server's id. A fault only makes a thread redo its call. A record gets a new server id when the server
answers `-EINVAL` to a pretake or a take.

The steps of a thread are the pieces of its stub between two invocations and, inside the server, the
part that runs under the lock of the component. A failed assertion is `none`.
-/
namespace SuperGlue.Source.Lock.Stub
open Option Function Lib.Transition Lib.FiniteMap Source.Stub.Cstub

abbrev Tid := Nat
abbrev SpdId := Nat
abbrev ClientId := Nat
abbrev ServerId := Nat

/-! ## The server -/

structure Server where
  /-- The counter that `lock_alloc` takes ids from. -/
  lockId : Nat
  /-- The ids and owners of `locks`. -/
  locks : List (ServerId × SpdId)
  deriving DecidableEq, Repr

def Server.boot : Server := ⟨1, []⟩

def lockFind (srv : Server) (lock : ServerId) (spd : SpdId) : Bool := srv.locks.contains (lock, spd)

/-- `lock_alloc`, with the id that `lock_component_alloc` returns. -/
def lockAlloc (srv : Server) (spd : SpdId) : Server × ServerId :=
  (⟨(srv.lockId + 1) % counterModulus, (srv.lockId, spd) :: srv.locks⟩, srv.lockId)

/-! ## The stub -/

inductive Op where
  | pretake
  | take
  | release
  deriving DecidableEq, Repr

/-- `struct rec_data_lk`. -/
structure RecData where
  sLkid : ServerId
  fcnt : Nat
  deriving DecidableEq, Repr

/-- Where a thread is. `entered` is the fault count of the server when the kernel let the thread in. -/
inductive Pc where
  | idle
  /-- At `redo` of `op` on a lock. -/
  | redo (op : Op) (lkid : ClientId)
  /-- In the server, before the operation looks for the lock. -/
  | inside (op : Op) (lkid : ClientId) (sLkid : ServerId) (entered : Nat)
  /-- In the server, with the lock found, where a take may block. -/
  | served (op : Op) (lkid : ClientId) (entered : Nat)
  /-- At `redo` of `lock_component_alloc`, called by the client or by `rd_recover_state`. -/
  | alloc (recovers : Option (Op × ClientId))
  | allocInside (recovers : Option (Op × ClientId)) (entered : Nat)
  | allocated (recovers : Option (Op × ClientId)) (sLkid : ServerId) (entered : Nat)
  deriving DecidableEq, Repr

structure State where
  link : Link
  /-- `uniq_lkids`. -/
  table : Table ClientId RecData
  server : Server
  pc : Tid → Pc

def init : State := ⟨Link.init, .empty, Server.boot, fun _ => .idle⟩

variable (s : State) (t : Tid)

def State.goto (pc : Pc) : State :=
  { s with pc := update s.pc t pc }

def State.record (lkid : ClientId) (rd : RecData) : State :=
  { s with table := s.table.set lkid rd }

/-- A fault that the stub sees: update the counters, then `redo`. -/
def seesFault (redo : Pc) : Option State :=
  s.link.faultUpdate.map fun link => { s with link := link }.goto t redo

/-- `rd_update`: it only refreshes the fault count. -/
def rdUpdate (lkid : ClientId) : Option (State × RecData) :=
  (s.table.get lkid).map fun rd =>
    let rd := { rd with fcnt := s.link.globalFaultCnt }
    (s.record lkid rd, rd)

/-- From `redo` up to and including the entry into the server. -/
def invoke : Option State :=
  match s.pc t with
  | .redo op lkid =>
    (rdUpdate s lkid).bind fun (s, rd) =>
      if s.link.reaches then some (s.goto t (.inside op lkid rd.sLkid s.link.faultCnt))
      else seesFault s t (.redo op lkid)
  | .alloc recovers =>
    if s.link.reaches then some (s.goto t (.allocInside recovers s.link.faultCnt))
    else seesFault s t (.alloc recovers)
  | _ => none

/-- The answer to an unknown id: pretake and take call `rd_recover_state`, release returns 0. -/
def unknown (op : Op) (lkid : ClientId) : Pc :=
  match op with
  | .release => .idle
  | _ => .alloc (some (op, lkid))

/-- The server's part of an invocation. -/
def serve (self : SpdId) (s : State) (t : Tid) : Option State :=
  match s.pc t with
  | .inside op lkid sLkid entered =>
    if entered ≠ s.link.faultCnt then none
    else if lockFind s.server sLkid self then some (s.goto t (.served op lkid entered))
    else some (s.goto t (unknown op lkid))
  | .allocInside recovers entered =>
    if entered ≠ s.link.faultCnt then none
    else
      let (server, sLkid) := lockAlloc s.server self
      some ({ s with server := server }.goto t (.allocated recovers sLkid entered))
  | _ => none

/-- `lock_component_alloc` after its invocation, and after it the rest of `rd_recover_state` if that
called it; the temporary record of the latter is gone again. `map` is the answer of `cos_map_add`. -/
def rdAlloc (recovers : Option (Op × ClientId)) (sLkid : ServerId) (map : ClientId) :
    Option State :=
  if sLkid = 0 ∨ map = 0 ∨ (s.table.get map).isSome then none
  else
    match recovers with
    | none => some ((s.record map ⟨sLkid, s.link.globalFaultCnt⟩).goto t .idle)
    | some (op, lkid) =>
      (s.table.get lkid).map fun rd =>
        (s.record lkid { rd with sLkid := sLkid }).goto t (.redo op lkid)

/-- The return of a thread from the server, with or without a fault. -/
def returns (map : ClientId) : Option State :=
  match s.pc t with
  | .inside op lkid _ entered =>
    if entered = s.link.faultCnt then none else seesFault s t (.redo op lkid)
  | .served op lkid entered =>
    if entered = s.link.faultCnt then some (s.goto t .idle) else seesFault s t (.redo op lkid)
  | .allocInside recovers entered =>
    if entered = s.link.faultCnt then none else seesFault s t (.alloc recovers)
  | .allocated recovers sLkid entered =>
    if entered = s.link.faultCnt then rdAlloc s t recovers sLkid map
    else seesFault s t (.alloc recovers)
  | _ => none

/-! ## The system -/

inductive Label where
  | call (t : Tid) (op : Op) (lkid : ClientId)
  | callAlloc (t : Tid)
  | invoke (t : Tid)
  | serve (t : Tid)
  | returns (t : Tid) (map : ClientId)
  /-- Another component allocates a lock. -/
  | other (spd : SpdId)
  /-- The server fails and is started again. -/
  | reboot
  deriving DecidableEq, Repr

def start (pc : Pc) : Option State :=
  if s.pc t = .idle then some (s.goto t pc) else none

def step (self : SpdId) (s : State) : Label → Option State
  | .call t op lkid => start s t (.redo op lkid)
  | .callAlloc t => start s t (.alloc none)
  | .invoke t => invoke s t
  | .serve t => serve self s t
  | .returns t map => returns s t map
  | .other spd => if spd = self then none else some { s with server := (lockAlloc s.server spd).1 }
  | .reboot => some { s with server := Server.boot, link := s.link.trigger }

/-! ## What a step can do -/

/-- The server id recorded for a client id. -/
def State.sLkid (s : State) (lkid : ClientId) : Option ServerId := (s.table.get lkid).map (·.sLkid)

/-- The lock that a thread is re-allocating. -/
def Pc.recovers : Pc → Option ClientId
  | .alloc r => r.map Prod.snd
  | .allocInside r _ => r.map Prod.snd
  | .allocated r _ _ => r.map Prod.snd
  | _ => none

/-- The server id that a thread brings back from an allocation which no fault has undone. -/
def State.carries (s : State) (t : Tid) : Option ServerId :=
  match s.pc t with
  | .allocated _ sLkid entered => if entered = s.link.faultCnt then some sLkid else none
  | _ => none

def Label.thread : Label → Option Tid
  | .call t _ _ => some t
  | .callAlloc t => some t
  | .invoke t => some t
  | .serve t => some t
  | .returns t _ => some t
  | .other _ => none
  | .reboot => none

/-- A thread that brings nothing back goes to `pc`, where it does not either. -/
structure Moves (s : State) (t : Tid) (pc : Pc) (s' : State) : Prop where
  pcs : s'.pc = update s.pc t pc
  server : s'.server = s.server
  recorded : s'.sLkid = s.sLkid
  faults : s'.link.faultCnt = s.link.faultCnt
  before : s.carries t = none
  after : ∀ r id n, pc ≠ .allocated r id n

/-- What a step does to the threads, the server and the recorded server ids. -/
inductive Effect (self : SpdId) (s : State) : Label → State → Prop where
  | moves {label : Label} {t : Tid} {pc : Pc} {s' : State} (of : label.thread = some t) (moves : Moves s t pc s')
      (same : pc.recovers = none ∨ pc.recovers = (s.pc t).recovers) : Effect self s label s'
  /-- The server does not know the lock of a pretake or a take. -/
  | unknown (t : Tid) (op : Op) (lkid : ClientId) (sLkid : ServerId) {s' : State}
      (was : s.pc t = .inside op lkid sLkid s.link.faultCnt) (missing : lockFind s.server sLkid self = false)
      (takes : op ≠ .release) (moves : Moves s t (.alloc (some (op, lkid))) s') : Effect self s (.serve t) s'
  | allocates {t : Tid} {r : Option (Op × ClientId)} {s' : State} (was : s.pc t = .allocInside r s.link.faultCnt)
      (pcs : s'.pc = update s.pc t (.allocated r s.server.lockId s.link.faultCnt))
      (server : s'.server = (lockAlloc s.server self).1) (recorded : s'.sLkid = s.sLkid) (link : s'.link = s.link) :
      Effect self s (.serve t) s'
  | others {spd : SpdId} (other : spd ≠ self) :
      Effect self s (.other spd) { s with server := (lockAlloc s.server spd).1 }
  /-- A new record, or the new server id of an old one. -/
  | records (t : Tid) (map lkid : ClientId) {r : Option (Op × ClientId)} {sLkid : ServerId} {pc : Pc} {s' : State}
      (was : s.pc t = .allocated r sLkid s.link.faultCnt)
      (of : r.map Prod.snd = some lkid ∨ r = none ∧ lkid = map ∧ s.sLkid lkid = none)
      (pcs : s'.pc = update s.pc t pc) (after : pc = .idle ∨ ∃ op, pc = .redo op lkid) (server : s'.server = s.server)
      (recorded : s'.sLkid = update s.sLkid lkid (some sLkid)) (link : s'.link = s.link) :
      Effect self s (.returns t map) s'
  | reboots : Effect self s .reboot { s with server := Server.boot, link := s.link.trigger }

theorem record_sLkid (lkid : ClientId) (rd : RecData) :
    (s.record lkid rd).sLkid = update s.sLkid lkid (some rd.sLkid) := by
  funext other
  by_cases same : other = lkid
  · subst same
    simp [State.sLkid, State.record]
  · rw [update_of_ne same]
    simp [State.sLkid, State.record, Table.get_set_of_ne _ same]

variable {s s' : State} {t : Tid} {self : SpdId} {map : ClientId} {label : Label}

theorem carries_none (empty : ∀ r id n, s.pc t ≠ .allocated r id n) : s.carries t = none := by
  unfold State.carries
  split
  next at_ => exact absurd at_ (empty _ _ _)
  · rfl

theorem rdUpdate_quiet {lkid : ClientId} {rd : RecData} (h : rdUpdate s lkid = some (s', rd)) :
    s' = { s with table := s'.table } ∧ s'.sLkid = s.sLkid := by
  obtain ⟨old, found, made⟩ := map_eq_some_iff.mp h
  obtain ⟨rfl, -⟩ := Prod.mk.inj made
  refine ⟨rfl, ?_⟩
  rw [record_sLkid]
  exact update_eq_self_iff.mpr (by simp [State.sLkid, found])

/-- The thread goes back to where it started its invocation. -/
theorem seesFault_moves {redo : Pc} (h : seesFault s t redo = some s') (before : s.carries t = none)
    (after : ∀ r id n, redo ≠ .allocated r id n) : Moves s t redo s' := by
  obtain ⟨link, seen, rfl⟩ := map_eq_some_iff.mp h
  rw [Link.faultUpdate, ite_none_left_eq_some] at seen
  obtain ⟨-, same⟩ := seen
  cases same
  exact ⟨rfl, rfl, rfl, rfl, before, after⟩

theorem invoke_effect (h : invoke s t = some s') : Effect self s (.invoke t) s' := by
  unfold invoke at h
  split at h
  next op lkid at_ =>
    obtain ⟨⟨updated, rd⟩, update, h⟩ := bind_eq_some_iff.mp h
    obtain ⟨eq, recorded⟩ := rdUpdate_quiet update
    have before : s.carries t = none := carries_none (by simp [at_])
    dsimp only at h
    split at h
    · cases h
      rw [eq]
      exact .moves rfl ⟨rfl, rfl, recorded, rfl, before, by simp⟩ (.inl rfl)
    · have moves := seesFault_moves h (by rw [eq]; exact before) (by simp)
      refine .moves rfl ⟨?_, ?_, moves.recorded.trans recorded, ?_, before, moves.after⟩ (.inl rfl)
      · rw [moves.pcs, eq]
      · rw [moves.server, eq]
      · rw [moves.faults, eq]
  next r at_ =>
    have before : s.carries t = none := carries_none (by simp [at_])
    split at h
    · cases h
      exact .moves rfl ⟨rfl, rfl, rfl, rfl, before, by simp⟩ (.inr (by rw [at_]; rfl))
    · exact .moves rfl (seesFault_moves h before (by simp)) (.inr (by rw [at_]))
  · contradiction

theorem serve_effect (h : serve self s t = some s') : Effect self s (.serve t) s' := by
  unfold serve at h
  split at h
  next op lkid sLkid entered at_ =>
    rw [ite_not, ite_none_right_eq_some] at h
    obtain ⟨rfl, h⟩ := h
    have moves : ∀ pc, (∀ r id n, pc ≠ .allocated r id n) → Moves s t pc (s.goto t pc) :=
      fun pc after => ⟨rfl, rfl, rfl, rfl, carries_none (by simp [at_]), after⟩
    split at h
    · cases h
      exact .moves rfl (moves _ (by simp)) (.inl rfl)
    next missing =>
      cases h
      cases op with
      | release => exact .moves rfl (moves _ (by simp [unknown])) (.inl rfl)
      | pretake | take => exact .unknown t _ lkid sLkid at_ (Bool.not_eq_true _ ▸ missing) (by simp) (moves _ (by simp))
  next r entered at_ =>
    rw [ite_not, ite_none_right_eq_some] at h
    obtain ⟨rfl, h⟩ := h
    cases h
    exact .allocates at_ rfl rfl rfl rfl
  · contradiction

theorem rdAlloc_effect {r : Option (Op × ClientId)} {sLkid : ServerId} (was : s.pc t = .allocated r sLkid s.link.faultCnt)
    (h : rdAlloc s t r sLkid map = some s') : Effect self s (.returns t map) s' := by
  unfold rdAlloc at h
  split at h
  · contradiction
  rename_i fresh
  split at h
  · cases h
    simp only [not_or, not_isSome_iff_eq_none] at fresh
    exact .records t map map was (.inr ⟨rfl, rfl, by simp [State.sLkid, fresh.2.2]⟩) rfl (.inl rfl) rfl (record_sLkid s map _) rfl
  next op lkid =>
    obtain ⟨rd, -, rfl⟩ := map_eq_some_iff.mp h
    exact .records t map lkid was (.inl rfl) rfl (.inr ⟨op, rfl⟩) rfl (record_sLkid s lkid _) rfl

theorem returns_effect (h : returns s t map = some s') : Effect self s (.returns t map) s' := by
  unfold returns at h
  split at h
  next at_ =>
    split at h
    · contradiction
    · exact .moves rfl (seesFault_moves h (carries_none (by simp [at_])) (by simp)) (.inl rfl)
  next at_ =>
    have before : s.carries t = none := carries_none (by simp [at_])
    split at h
    · cases h
      exact .moves rfl ⟨rfl, rfl, rfl, rfl, before, by simp⟩ (.inl rfl)
    · exact .moves rfl (seesFault_moves h before (by simp)) (.inl rfl)
  next at_ =>
    split at h
    · contradiction
    · exact .moves rfl (seesFault_moves h (carries_none (by simp [at_])) (by simp)) (.inr (by rw [at_]; rfl))
  next at_ =>
    split at h
    next current => exact rdAlloc_effect (current ▸ at_) h
    next undone =>
      exact .moves rfl (seesFault_moves h (by simp [State.carries, at_, undone]) (by simp)) (.inr (by rw [at_]; rfl))
  · contradiction

theorem step_effect (h : step self s label = some s') : Effect self s label s' := by
  cases label with
  | call t op lkid | callAlloc t =>
    simp only [step, start, ite_none_right_eq_some] at h
    obtain ⟨idle, h⟩ := h
    cases h
    exact .moves rfl ⟨rfl, rfl, rfl, rfl, carries_none (by simp [idle]), by simp⟩ (.inl rfl)
  | invoke => exact invoke_effect h
  | serve => exact serve_effect h
  | returns => exact returns_effect h
  | other spd =>
    simp only [step, ite_none_left_eq_some] at h
    obtain ⟨other, h⟩ := h
    cases h
    exact .others other
  | reboot =>
    cases h
    exact .reboots

end SuperGlue.Source.Lock.Stub
