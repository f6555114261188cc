import SuperGlue.Source.PeriodicWake.Stub

/-!
# Periodic threads after a fault

A thread that was periodic when the server failed should be made periodic again exactly once, with the
period of its last successful create, before it waits again. That holds as long as a thread creates again
only with the period it has, and the threads that see one fault do so before any of them has been
re-created.
-/
namespace SuperGlue.Guarantees.PeriodicRecovery
open Nat Function Option Lib.Transition Lib.FiniteMap Source.Stub.Cstub Source.PeriodicWake.Stub

/-- The state with what the server should know. -/
structure Observed where
  st : State
  /-- The period of the last create that succeeded. -/
  latest : Tid → Option Nat
  /-- The threads that had created when the server failed last. -/
  needed : Tid → Bool
  /-- How often a thread was re-created since then. -/
  remade : Tid → Nat

def latestNext (o : Observed) (t : Tid) : Tid → Option Nat :=
  match o.st.pc t with
  | .createReplied period ret entered =>
    if entered = o.st.link.faultCnt ∧ ret = 0 then Function.update o.latest t (some period) else o.latest
  | _ => o.latest

def remadeNext (o : Observed) (t : Tid) : Tid → Nat :=
  match o.st.pc t with
  | .recreateInside period entered =>
    if entered = o.st.link.faultCnt ∧ 1 ≤ period then Function.update o.remade t (o.remade t + 1)
    else o.remade
  | _ => o.remade

def observe (o : Observed) (label : Label) : Option Observed :=
  (step o.st label).map fun st =>
    match label with
    | .call _ _ => { o with st := st }
    | .run t => ⟨st, latestNext o t, o.needed, remadeNext o t⟩
    | .reboot => ⟨st, o.latest, fun t => (o.latest t).isSome, fun _ => 0⟩

def periodicSystem : System Observed Label := ⟨⟨init, fun _ => none, fun _ => false, fun _ => 0⟩, observe⟩

/-- Every thread whose wait the server is serving is periodic there with the period of its last
successful create, and was re-created once if it had created before the last fault. -/
def Recreated (o : Observed) : Prop :=
  ∀ t, o.st.pc t = .waitInside o.st.link.faultCnt →
    (o.latest t).isSome ∧ o.st.server t = o.latest t ∧ o.remade t = if o.needed t then 1 else 0

/-- The thread has passed `rd_update` and is not in the server's wait yet. -/
def Between : Pc → Prop
  | .recreate _ => True
  | .recreateInside _ _ => True
  | .waitCall => True
  | _ => False

/-- The next step of the thread is `CSTUB_FAULT_UPDATE`. -/
def Updates (s : State) : Pc → Prop
  | .create _ => s.link.reaches = false
  | .waitCall => s.link.reaches = false
  | .createInside _ entered => entered ≠ s.link.faultCnt
  | .createReplied _ _ entered => entered ≠ s.link.faultCnt
  | .waitInside entered => entered ≠ s.link.faultCnt
  | .waitReplied _ entered => entered ≠ s.link.faultCnt
  | _ => False

/-- The thread is the first that sees the fault, or no record has been refreshed since; and no other
thread is on its way from `rd_update` to the server. -/
def Updatable (s : State) (t : Tid) : Prop :=
  s.link.globalFaultCnt + 1 < counterModulus ∧
    (s.link.reaches → s.table.All fun _ rd => rd.fcnt ≠ s.link.globalFaultCnt) ∧
    s.pcs.All fun t' pc => t' ≠ t → ¬ Between pc

/-- A thread creates with a period, and again only with the same one; it waits after it has created. -/
def Careful (o : Observed) : Label → Prop
  | .call t (.create period) =>
    t ≠ 0 ∧ (o.st.table.get t = none → 1 ≤ period) ∧ ∀ rd ∈ o.st.table.get t, period = 0 ∨ period = rd.period
  | .call t .wait => (o.st.table.get t).isSome
  | .run t => Updates o.st (o.st.pc t) → Updatable o.st t
  | .reboot => True

instance (pc : Pc) : Decidable (Between pc) := by
  unfold Between
  split <;> infer_instance

instance (s : State) (pc : Pc) : Decidable (Updates s pc) := by
  unfold Updates
  split <;> infer_instance

instance (s : State) (t : Tid) : Decidable (Updatable s t) := inferInstanceAs (Decidable (_ ∧ _ ∧ _))

instance : DecidableRel Careful := by
  intro o label
  unfold Careful
  split <;> infer_instance

/-! ## The invariant -/

variable (o : Observed) (t : Tid)

def Current (rd : RecData) : Prop := rd.fcnt = o.st.link.globalFaultCnt

/-- The server knows the thread. -/
def Settled (rd : RecData) : Prop :=
  o.st.server t = some rd.period ∧ o.remade t = if o.needed t then 1 else 0

/-- The thread has to be re-created. -/
def Owed : Prop := o.needed t = true ∧ o.remade t = 0

def Synced (rd : RecData) : Prop :=
  (o.st.link.reaches → Current o rd → Settled o t rd) ∧ ((o.st.link.reaches → ¬ Current o rd) → Owed o t)

/-- A thread in the server: it can be reached if it has not failed since. -/
def Inside (n : Nat) : Prop :=
  n ≤ o.st.link.faultCnt ∧ (n = o.st.link.faultCnt → o.st.link.reaches = true)

def Creates (period : Nat) : Prop :=
  t ≠ 0 ∧ (o.st.table.get t = none → 1 ≤ period) ∧ ∀ rd, o.st.table.get t = some rd → period = 0 ∨ period = rd.period

/-- What holds where the thread is. -/
def Fits : Pc → Prop
  | .idle => True
  | .failed => False
  | .create period => Creates o t period
  | .createInside period n => Creates o t period ∧ Inside o n
  | .createReplied period ret n => Creates o t period ∧ Inside o n ∧ (ret = 0 ↔ 1 ≤ period) ∧
      (n = o.st.link.faultCnt → 1 ≤ period → o.st.server t = some period)
  | .wait => (o.st.table.get t).isSome
  | .recreate period => ∃ rd, o.st.table.get t = some rd ∧ Current o rd ∧ rd.period = period
  | .recreateInside period n => (∃ rd, o.st.table.get t = some rd ∧ Current o rd ∧ rd.period = period) ∧
      Inside o n ∧ (n ≠ o.st.link.faultCnt → o.st.link.reaches = false)
  | .waitCall => ∃ rd, o.st.table.get t = some rd ∧ Current o rd
  | .waitInside n => Inside o n ∧
      ∃ rd, o.st.table.get t = some rd ∧ (n = o.st.link.faultCnt → Current o rd)
  | .waitReplied _ n => Inside o n ∧ (o.st.table.get t).isSome

/-- The record says that the thread has been re-created, but that is still to be done. -/
def Marked : Pc → Prop
  | .recreate _ => True
  | .recreateInside _ _ => True
  | _ => False

structure Thread : Prop where
  unknown : o.st.table.get t = none → o.latest t = none ∧ o.needed t = false ∧ o.remade t = 0
  known : ∀ rd, o.st.table.get t = some rd →
    o.latest t = some rd.period ∧ 1 ≤ rd.period ∧ rd.fcnt ≤ o.st.link.globalFaultCnt
  marked : ∀ rd, o.st.table.get t = some rd → Marked (o.st.pc t) → Owed o t
  synced : ∀ rd, o.st.table.get t = some rd → ¬ Marked (o.st.pc t) → Synced o t rd
  fits : Fits o t (o.st.pc t)

structure Regular : Prop where
  lag : o.st.link.capCnt ≤ o.st.link.faultCnt
  thread : ∀ t, Thread o t

/-! ## One step -/

variable {o t} {o' : Observed}

/-- Nothing that concerns the thread has changed. -/
structure Same (o o' : Observed) (t : Tid) : Prop where
  link : o'.st.link = o.st.link
  get : o'.st.table.get t = o.st.table.get t
  server : o'.st.server t = o.st.server t
  latest : o'.latest t = o.latest t
  needed : o'.needed t = o.needed t
  remade : o'.remade t = o.remade t
  pc : o'.st.pc t = o.st.pc t

theorem Same.fits (same : Same o o' t) (pc : Pc) : Fits o' t pc ↔ Fits o t pc := by
  cases pc <;> simp [Fits, Creates, Inside, Current, same.link, same.get, same.server]

theorem Same.owed (same : Same o o' t) : Owed o' t ↔ Owed o t := by
  simp [Owed, same.needed, same.remade]

theorem Same.synced (same : Same o o' t) (rd : RecData) : Synced o' t rd ↔ Synced o t rd := by
  simp [Synced, Settled, Current, same.owed, same.link, same.server, same.needed, same.remade]

theorem Thread.frame (h : Thread o t) (same : Same o o' t) : Thread o' t := by
  refine ⟨?_, fun rd => ?_, fun rd => ?_, fun rd => ?_, ?_⟩
  · rw [same.get, same.latest, same.needed, same.remade]
    exact h.unknown
  · rw [same.get, same.latest, same.link]
    exact h.known rd
  · rw [same.get, same.pc, same.owed]
    exact h.marked rd
  · rw [same.get, same.pc, same.synced]
    exact h.synced rd
  · rw [same.pc, same.fits]
    exact h.fits

/-- A step of one thread that leaves the counters. -/
theorem Regular.local (h : Regular o) (link : o'.st.link = o.st.link)
    (others : ∀ t', t' ≠ t → Same o o' t') (own : Thread o' t) : Regular o' := by
  constructor
  · rw [link]
    exact h.lag
  · intro t'
    by_cases same : t' = t
    · rw [same]
      exact own
    · exact (h.thread t').frame (others t' same)

variable {pc : Pc}

/-- A thread goes on and nothing else changes. -/
theorem Regular.move (h : Regular o) (fits : Fits o t pc) (marked : Marked pc → Marked (o.st.pc t))
    (left : Marked (o.st.pc t) → ¬ Marked pc → o.st.link.reaches = false) :
    Regular { o with st := o.st.goto t pc } := by
  have own := h.thread t
  refine h.local (t := t) rfl ?_ ?_
  · intro t' ne
    exact ⟨rfl, rfl, rfl, rfl, rfl, rfl, by rw [goto_pc, if_neg ne]⟩
  refine ⟨own.unknown, own.known, ?_, ?_, ?_⟩
  · intro rd found m
    rw [goto_pc, if_pos rfl] at m
    exact own.marked rd found (marked m)
  · intro rd found m
    rw [goto_pc, if_pos rfl] at m
    by_cases was : Marked (o.st.pc t)
    · have gone := left was m
      exact ⟨fun reaches => absurd (gone ▸ reaches) (by decide), fun _ => own.marked rd found was⟩
    · exact own.synced rd found was
  · rw [goto_pc, if_pos rfl]
    cases pc <;> exact fits

theorem Regular.pass {old : Pc} (h : Regular o) (at_ : o.st.pc t = old) (fits : Fits o t pc) (before : ¬ Marked old)
    (after : ¬ Marked pc) : Regular { o with st := o.st.goto t pc } :=
  h.move fits (fun m => absurd m after) fun m => absurd (at_ ▸ m) before

theorem Regular.fits_at (h : Regular o) (at_ : o.st.pc t = pc) : Fits o t pc := at_ ▸ (h.thread t).fits

/-! ## The counters -/

theorem reaches_iff (l : Link) : l.reaches ↔ l.capCnt = l.faultCnt := beq_iff_eq

/-- Whoever has a record has to be re-created once a fault is about to be seen. -/
theorem Thread.owed_of_updatable {t' : Tid} (h : Thread o t') (ready : Updatable o.st t) {rd : RecData}
    (found : o.st.table.get t' = some rd) : Owed o t' := by
  by_cases marked : Marked (o.st.pc t')
  · exact h.marked rd found marked
  · exact (h.synced rd found marked).2 fun reaches => ready.2.1 reaches t' rd found

/-- Where a thread is still fits with other counters. If it entered the server with the count that there is now, then
nothing has changed for it since, and its record is not refreshed. -/
theorem Fits.relink (h : Fits o t pc) (table : o'.st.table = o.st.table) (inside : ∀ n, Inside o n → Inside o' n)
    (served : ∀ n, Inside o n → n = o'.st.link.faultCnt → n = o.st.link.faultCnt ∧ o'.st.server t = o.st.server t ∧
      ∀ rd, o.st.table.get t = some rd → ¬ Current o rd)
    (between : Between pc → o'.st.link.reaches = false ∧ ∀ rd, Current o rd → Current o' rd) : Fits o' t pc := by
  obtain ⟨⟨link, _, server, pcs⟩, latest, needed, remade⟩ := o'
  cases table
  cases pc with
  | idle | failed | create | wait => exact h
  | createInside period n => exact ⟨h.1, inside n h.2⟩
  | createReplied period ret n =>
    refine ⟨h.1, inside n h.2.1, h.2.2.1, fun same pos => ?_⟩
    obtain ⟨before, kept, -⟩ := served n h.2.1 same
    exact kept.trans (h.2.2.2 before pos)
  | recreate =>
    obtain ⟨rd, found, fresh, same⟩ := h
    exact ⟨rd, found, (between trivial).2 rd fresh, same⟩
  | recreateInside period n =>
    obtain ⟨⟨rd, found, fresh, same⟩, within, -⟩ := h
    exact ⟨⟨rd, found, (between trivial).2 rd fresh, same⟩, inside n within, fun _ => (between trivial).1⟩
  | waitCall =>
    obtain ⟨rd, found, fresh⟩ := h
    exact ⟨rd, found, (between trivial).2 rd fresh⟩
  | waitInside n =>
    obtain ⟨within, rd, found, current⟩ := h
    refine ⟨inside n within, rd, found, fun same => ?_⟩
    obtain ⟨before, -, stale⟩ := served n within same
    exact absurd (current before) (stale rd found)
  | waitReplied ret n => exact ⟨inside n h.1, h.2⟩

/-- `CSTUB_FAULT_UPDATE`, and the call starts again. -/
theorem Regular.update (h : Regular o) {redo : Pc} (fault : o.st.link.faultCnt ≠ 0)
    (ready : Updatable o.st t) (again : ∀ o' : Observed, o'.st.table = o.st.table → Fits o' t redo) :
    Regular { o with st := seesFault o.st t redo } := by
  have moved : seesFault o.st t redo = State.goto { o.st with
      link := ⟨o.st.link.faultCnt, o.st.link.faultCnt, o.st.link.globalFaultCnt + 1⟩ } t redo := by
    rw [seesFault, Link.faultUpdate_eq fault ready.1]
  rw [moved]
  have apart : ∀ t', t' ≠ t → ¬ Between (o.st.pc t') := by
    intro t' ne
    rw [State.pc]
    cases found : o.st.pcs.get t' with
    | none => exact id
    | some pc => exact ready.2.2 t' pc found ne
  constructor
  · exact le_refl _
  intro t'
  have own := h.thread t'
  refine ⟨own.unknown, ?_, ?_, ?_, ?_⟩
  · intro rd found
    obtain ⟨latest, period, le⟩ := own.known rd found
    exact ⟨latest, period, le_succ_of_le le⟩
  · intro rd found _
    exact own.owed_of_updatable ready found
  · intro rd found _
    have le := (own.known rd found).2.2
    have stale := Nat.ne_of_lt (Nat.lt_succ_of_le le)
    exact ⟨fun _ current => absurd current stale, fun _ => own.owed_of_updatable ready found⟩
  · rw [goto_pc]
    split
    next same =>
      rw [same]
      exact again _ rfl
    next ne =>
      refine own.fits.relink rfl (fun n within => ⟨within.1, fun _ => (reaches_iff ⟨_, _, _⟩).mpr rfl⟩) ?_
        fun between => absurd between (apart t' ne)
      intro n within same
      exact ⟨same, rfl, fun rd found => ready.2.1 (within.2 same) t' rd found⟩

/-- The server has failed since a thread entered it, or the capability is behind. -/
theorem Regular.faulted (h : Regular o) (unreached : o.st.link.reaches = false) : o.st.link.faultCnt ≠ 0 := by
  have le := h.lag
  have ne := not_eq_of_beq_eq_false unreached
  omega

theorem Inside.faulted {n : Nat} (h : Inside o n) (ne : n ≠ o.st.link.faultCnt) : o.st.link.faultCnt ≠ 0 := by
  have le := h.1
  omega

/-! ## The steps of a thread -/

variable {period : Nat}

theorem createServed_pos {s : State} (pos : 1 ≤ period) :
    createServed s t period = ({ s with server := Function.update s.server t (some period) }, 0) := by
  rw [createServed, if_neg (not_lt.mpr pos)]

/-- The server makes the thread periodic. -/
theorem Regular.serve (h : Regular o) (at_ : o.st.pc t = .createInside period o.st.link.faultCnt) :
    Regular { o with st := ((createServed o.st t period).1.goto t
      (.createReplied period (createServed o.st t period).2 o.st.link.faultCnt)) } := by
  have own := h.thread t
  obtain ⟨creates, inside⟩ := h.fits_at at_
  by_cases pos : 1 ≤ period
  · rw [createServed_pos pos]
    refine h.local rfl ?_ ⟨own.unknown, own.known, ?_, ?_, ?_⟩
    · intro t' ne
      exact ⟨rfl, rfl, update_of_ne ne _ _, rfl, rfl, rfl, by rw [goto_pc, if_neg ne]; rfl⟩
    · intro rd found m
      rw [goto_pc, if_pos rfl] at m
      exact m.elim
    · intro rd found _
      have synced := own.synced rd found (by rw [at_]; exact id)
      refine ⟨fun reaches current => ⟨?_, (synced.1 reaches current).2⟩, synced.2⟩
      rcases creates.2.2 rd found with zero | same
      · omega
      · rw [← same]
        exact update_self _ _ _
    · rw [goto_pc, if_pos rfl]
      exact ⟨creates, inside, ⟨fun _ => pos, fun _ => rfl⟩, fun _ _ => update_self _ _ _⟩
  · rw [createServed, if_pos (Nat.lt_of_not_le pos)]
    exact h.pass at_ ⟨creates, inside, ⟨nofun, fun p => absurd p pos⟩, fun _ p => absurd p pos⟩ id id

/-- The first create is recorded, a later one has changed nothing. -/
theorem Regular.record (h : Regular o) {ret : Int}
    (at_ : o.st.pc t = .createReplied period ret o.st.link.faultCnt) : Regular { o with
      st := created o.st t period
      latest := if ret = 0 then Function.update o.latest t (some period) else o.latest } := by
  have own := h.thread t
  obtain ⟨creates, inside, ret_eq, served⟩ := h.fits_at at_
  have reaches := inside.2 rfl
  rw [created]
  cases found : o.st.table.get t with
  | some rd =>
    have latest : (if ret = 0 then Function.update o.latest t (some period) else o.latest) = o.latest := by
      split
      next zero =>
        rcases creates.2.2 rd found with none | same
        · omega
        · rw [same, ← (own.known rd found).1]
          exact update_eq_self t o.latest
      · rfl
    rw [latest]
    exact h.pass at_ trivial id id
  | none =>
    have pos := creates.2.1 found
    obtain ⟨-, needed, remade⟩ := own.unknown found
    rw [if_pos (ret_eq.mpr pos)]
    rw [if_neg creates.1]
    refine h.local (t := t) rfl ?_ ⟨?_, ?_, ?_, ?_, ?_⟩
    · intro t' ne
      exact ⟨rfl, Table.get_set_of_ne _ ne _, rfl, update_of_ne ne _ _, rfl, rfl, by rw [goto_pc, if_neg ne]; rfl⟩
    · intro none
      nomatch (Table.get_set_self o.st.table t _).symm.trans none
    · intro rd made
      obtain rfl := some.inj ((Table.get_set_self o.st.table t _).symm.trans made)
      exact ⟨update_self _ _ _, pos, le_refl _⟩
    · intro rd made m
      rw [goto_pc, if_pos rfl] at m
      exact m.elim
    · intro rd made _
      obtain rfl := some.inj ((Table.get_set_self o.st.table t _).symm.trans made)
      refine ⟨fun _ _ => ⟨served rfl pos, ?_⟩, fun stale => absurd rfl (stale reaches)⟩
      rw [needed, remade]
      rfl
    · rw [goto_pc, if_pos rfl]
      trivial

/-- `rd_update` finds the record current, or marks it as such and goes on to re-create the thread. -/
theorem Regular.refresh (h : Regular o) (at_ : o.st.pc t = .wait) : Regular { o with st := rdUpdate o.st t } := by
  have own := h.thread t
  obtain ⟨rd, found⟩ := isSome_iff_exists.mp (h.fits_at at_)
  have synced := own.synced rd found (by rw [at_]; exact id)
  by_cases current : rd.fcnt = o.st.link.globalFaultCnt
  · have stays : rdUpdate o.st t = o.st.goto t .waitCall := by
      rw [rdUpdate, found]
      exact if_pos current
    rw [stays]
    exact h.pass at_ ⟨rd, found, current⟩ id id
  · have marks : rdUpdate o.st t =
        (o.st.record t { rd with fcnt := o.st.link.globalFaultCnt }).goto t (.recreate rd.period) := by
      rw [rdUpdate, found]
      exact if_neg current
    rw [marks]
    refine h.local (t := t) rfl ?_ ⟨?_, ?_, ?_, ?_, ?_⟩
    · intro t' ne
      exact ⟨rfl, Table.get_set_of_ne _ ne _, rfl, rfl, rfl, rfl, by rw [goto_pc, if_neg ne]; rfl⟩
    · intro none
      nomatch (Table.get_set_self o.st.table t _).symm.trans none
    · intro rd' made
      obtain rfl := some.inj ((Table.get_set_self o.st.table t _).symm.trans made)
      obtain ⟨latest, period, -⟩ := own.known rd found
      exact ⟨latest, period, le_refl _⟩
    · intro _ _ _
      exact synced.2 fun _ => current
    · intro _ _ m
      rw [goto_pc, if_pos rfl] at m
      exact absurd trivial m
    · rw [goto_pc, if_pos rfl]
      exact ⟨_, Table.get_set_self o.st.table t _, rfl, rfl⟩

/-- The server has re-created the thread. -/
theorem Regular.recreated (h : Regular o)
    (at_ : o.st.pc t = .recreateInside period o.st.link.faultCnt) :
    1 ≤ period ∧
    Regular { o with
      st := (createServed o.st t period).1.goto t .waitCall
      remade := Function.update o.remade t (o.remade t + 1) } := by
  have own := h.thread t
  obtain ⟨⟨rd, found, current, rfl⟩, inside, -⟩ := h.fits_at at_
  have owed := own.marked rd found (by rw [at_]; trivial)
  have pos := (own.known rd found).2.1
  refine ⟨pos, ?_⟩
  rw [createServed_pos pos]
  refine h.local rfl ?_ ⟨?_, own.known, ?_, ?_, ?_⟩
  · intro t' ne
    exact ⟨rfl, rfl, update_of_ne ne _ _, rfl, rfl, update_of_ne ne _ _, by rw [goto_pc, if_neg ne]; rfl⟩
  · intro none
    nomatch found.symm.trans none
  · intro _ _ m
    rw [goto_pc, if_pos rfl] at m
    exact m.elim
  · intro rd' found' _
    cases found.symm.trans found'
    refine ⟨fun _ _ => ⟨update_self _ _ _, ?_⟩, fun stale => absurd current (stale (inside.2 rfl))⟩
    change Function.update o.remade t (o.remade t + 1) t = if o.needed t = true then 1 else 0
    rw [update_self, owed.1, owed.2]
    rfl
  · rw [goto_pc, if_pos rfl]
    exact ⟨rd, found, current⟩

/-- The call starts again from `create` or from `wait`. -/
theorem Creates.again (h : Creates o t period) (o' : Observed)
    (table : o'.st.table = o.st.table) : Fits o' t (.create period) := by
  rw [Fits, Creates, table]
  exact h

theorem wait_again (some : (o.st.table.get t).isSome) (o' : Observed)
    (table : o'.st.table = o.st.table) : Fits o' t .wait := by
  rw [Fits, table]
  exact some

theorem run_regular (h : Regular o) (careful : Careful o (.run t)) (step : observe o (.run t) = some o') :
    Regular o' := by
  obtain ⟨st, taken, rfl⟩ := map_eq_some_iff.mp step
  have own := (h.thread t).fits
  have ready : Updates o.st (o.st.pc t) → Updatable o.st t := careful
  change run o.st t = some st at taken
  rw [run] at taken
  dsimp only [latestNext, remadeNext]
  generalize at_ : o.st.pc t = pc at own ready taken ⊢
  cases pc with
  | idle | failed => nomatch taken
  | create =>
    cases taken
    by_cases reaches : o.st.link.reaches = true
    · rw [if_pos reaches]
      exact h.pass at_ ⟨own, le_refl _, fun _ => reaches⟩ id id
    · rw [if_neg reaches]
      have gone := Bool.eq_false_iff.mpr reaches
      exact h.update (h.faulted gone) (ready gone) own.again
  | createInside period n =>
    cases taken
    by_cases same : n = o.st.link.faultCnt
    · subst same
      rw [if_pos rfl]
      exact h.serve at_
    · rw [if_neg same]
      exact h.update (own.2.faulted same) (ready same) own.1.again
  | createReplied period ret n =>
    cases taken
    by_cases same : n = o.st.link.faultCnt
    · subst same
      simp only [if_true, true_and]
      exact h.record at_
    · simp only [same, if_false, false_and]
      exact h.update (own.2.1.faulted same) (ready same) own.1.again
  | wait =>
    cases taken
    exact h.refresh at_
  | recreate =>
    cases taken
    by_cases reaches : o.st.link.reaches = true
    · rw [if_pos reaches]
      exact h.move ⟨own, ⟨le_refl _, fun _ => reaches⟩, fun ne => absurd rfl ne⟩
        (fun _ => by rw [at_]; trivial) fun _ m => absurd trivial m
    · rw [if_neg reaches]
      obtain ⟨rd, found, current, -⟩ := own
      exact h.move ⟨rd, found, current⟩ (fun m => m.elim) fun _ _ => Bool.eq_false_iff.mpr reaches
  | recreateInside period n =>
    cases taken
    by_cases same : n = o.st.link.faultCnt
    · subst same
      obtain ⟨pos, regular⟩ := h.recreated at_
      simp only [if_true, true_and, pos]
      exact regular
    · simp only [same, if_false, false_and]
      obtain ⟨⟨rd, found, current, -⟩, -, gone⟩ := own
      exact h.move ⟨rd, found, current⟩ (fun m => m.elim) fun _ _ => gone same
  | waitCall =>
    cases taken
    obtain ⟨rd, found, current⟩ := own
    by_cases reaches : o.st.link.reaches = true
    · rw [if_pos reaches]
      exact h.pass at_ ⟨⟨le_refl _, fun _ => reaches⟩, rd, found, fun _ => current⟩ id id
    · rw [if_neg reaches]
      have gone := Bool.eq_false_iff.mpr reaches
      exact h.update (h.faulted gone) (ready gone) (wait_again (isSome_of_eq_some found))
  | waitInside n =>
    cases taken
    obtain ⟨inside, rd, found, -⟩ := own
    have some := isSome_of_eq_some found
    by_cases same : n = o.st.link.faultCnt
    · rw [if_pos same]
      exact h.pass at_ ⟨inside, some⟩ id id
    · rw [if_neg same]
      exact h.update (inside.faulted same) (ready same) (wait_again some)
  | waitReplied ret n =>
    cases taken
    by_cases same : n = o.st.link.faultCnt
    · rw [if_pos same]
      exact h.pass at_ trivial id id
    · rw [if_neg same]
      exact h.update (own.1.faulted same) (ready same) (wait_again own.2)

theorem call_regular {op : Op} (h : Regular o) (careful : Careful o (.call t op))
    (step : observe o (.call t op) = some o') : Regular o' := by
  obtain ⟨st, taken, rfl⟩ := map_eq_some_iff.mp step
  obtain ⟨idle, taken⟩ := ite_none_right_eq_some.mp taken
  cases taken
  have fits := careful
  cases op <;> exact h.pass idle fits id id

/-- The server forgets every thread, and each that has created has to be re-created. -/
theorem reboot_regular (h : Regular o) (step : observe o .reboot = some o') : Regular o' := by
  obtain ⟨st, taken, rfl⟩ := map_eq_some_iff.mp step
  cases taken
  have unreached : o.st.link.trigger.reaches = false := beq_false_of_ne (Nat.ne_of_lt (Nat.lt_succ_of_le h.lag))
  refine ⟨le_succ_of_le h.lag, fun t => ?_⟩
  have own := h.thread t
  have needed : ∀ rd, o.st.table.get t = some rd → (o.latest t).isSome := by
    intro rd found
    exact isSome_of_eq_some (own.known rd found).1
  -- nobody has entered the server since it failed
  have outside : ∀ n, Inside o n → n ≠ o.st.link.faultCnt + 1 := fun n within =>
    Nat.ne_of_lt (Nat.lt_succ_of_le within.1)
  refine ⟨?_, own.known, fun rd found _ => ⟨needed rd found, rfl⟩, ?_, own.fits.relink rfl ?_ ?_ ?_⟩
  · intro none
    have latest := (own.unknown none).1
    exact ⟨latest, isSome_eq_false_iff.mpr (isNone_iff_eq_none.mpr latest), rfl⟩
  · intro rd found _
    exact ⟨fun reaches => absurd (unreached ▸ reaches) (by decide), fun _ => ⟨needed rd found, rfl⟩⟩
  · exact fun n within => ⟨le_succ_of_le within.1, fun same => absurd same (outside n within)⟩
  · exact fun n within same => absurd same (outside n within)
  · exact fun _ => ⟨unreached, fun _ => id⟩

theorem step_regular {label : Label} (h : Regular o) (careful : Careful o label)
    (step : observe o label = some o') : Regular o' := by
  cases label with
  | call => exact call_regular h careful step
  | run => exact run_regular h careful step
  | reboot => exact reboot_regular h step

theorem init_regular : Regular periodicSystem.init := by
  refine ⟨le_refl _, fun t => ?_⟩
  refine ⟨fun _ => ⟨rfl, rfl, rfl⟩, nofun, nofun, nofun, trivial⟩

theorem Regular.recreatedOnce (h : Regular o) : Recreated o := by
  intro t at_
  have own := h.thread t
  obtain ⟨inside, rd, found, current⟩ := h.fits_at at_
  obtain ⟨server, remade⟩ := (own.synced rd found (by rw [at_]; exact id)).1 (inside.2 rfl) (current rfl)
  have latest := (own.known rd found).1
  exact ⟨isSome_of_eq_some latest, server.trans latest.symm, remade⟩

/-! ## Every run -/

/-- In runs whose threads create again only with their period and see a fault before any of them is
re-created, a thread that waits has been re-created once for each fault, and no assertion fails. -/
theorem periodic_threads_recovered (o : Observed) (reached : Reachable periodicSystem Careful o) :
    Recreated o ∧ ∀ t, o.st.pc t ≠ .failed := by
  have regular := reached.invariant Regular init_regular fun _ _ _ h careful step => step_regular h careful step
  refine ⟨regular.recreatedOnce, fun t at_ => ?_⟩
  exact regular.fits_at at_

/-- Thread 1 creates and waits, the server fails, and the thread waits in it again. -/
def faultedWait : List Label :=
  [.call 1 (.create 5), .run 1, .run 1, .run 1, .call 1 .wait, .run 1, .run 1, .reboot, .run 1, .run 1, .run 1,
    .run 1, .run 1]

theorem periodic_thread_recovered : ∃ o, Run periodicSystem Careful faultedWait o ∧
    o.st.pc 1 = .waitInside 1 ∧ o.remade 1 = 1 ∧ o.st.server 1 = some 5 ∧ Recreated o ∧ ∀ t, o.st.pc t ≠ .failed := by
  refine exec_shows (fun o => o.st.pc 1 = .waitInside 1 ∧ o.remade 1 = 1 ∧ o.st.server 1 = some 5) (by decide)
    fun o run ⟨inside, remade, server⟩ => ?_
  exact ⟨inside, remade, server, periodic_threads_recovered o ⟨_, run⟩⟩

/-- Thread 1 creates with period 5 and then with period 9; the record keeps the first one. -/
def changedPeriod : List Label :=
  [.call 1 (.create 5), .run 1, .run 1, .run 1, .call 1 (.create 9), .run 1, .run 1, .run 1, .call 1 .wait, .run 1,
    .run 1, .reboot, .run 1, .run 1, .run 1, .run 1, .run 1]

theorem first_period_restored : ∃ o, Run periodicSystem anyStep changedPeriod o ∧
    o.st.server 1 = some 5 ∧ o.latest 1 = some 9 ∧ ¬ Recreated o := by
  refine exec_shows (fun o => o.st.pc 1 = .waitInside o.st.link.faultCnt ∧ o.st.server 1 = some 5 ∧ o.latest 1 = some 9)
    (by decide) fun o _ ⟨inside, server, latest⟩ => ⟨server, latest, fun recreated => ?_⟩
  have same := (recreated 1 inside).2.1
  rw [server, latest] at same
  exact absurd same (by decide)

end SuperGlue.Guarantees.PeriodicRecovery
