import SuperGlue.Source.Stub.Sstub

/-!
# Notification of blocked threads after a client fault

The notification should reach every thread that was tracked when it started, and only look at records that
are linked. It drops the lock of the list at each record, so this depends on what the woken thread does
meanwhile: the scheduler and the event stub go on from the record itself, the lock stub from the successor
that it has saved. As long as that record stays linked, the loop passes along the rest of a list whose
other nodes may come and go.
-/
namespace SuperGlue.Guarantees.ClientNotification
open List
open Function (update update_apply update_eq_self update_of_ne update_self)
open Option Lib.Transition Lib.FiniteMap Lib.Ring Source.Stub.Sstub

/-- What has happened since a thread started its last notification. -/
structure Watch where
  /-- The threads that were tracked then. -/
  tracked : List ThdId
  /-- The threads whose records were visited, the last one first. -/
  called : List ThdId
  /-- The threads whose calls returned before their records were visited. -/
  gone : List ThdId

structure Observed where
  st : State
  watch : ThdId → Watch

/-- The threads that are blocked through the stub from a client. -/
def blocked (s : State) (spd : SpdId) : List ThdId :=
  (s.pcs.keys.filter fun t => s.pc t = .inside spd).dedup

def Watch.call (w : Watch) (t : ThdId) : Watch := { w with called := t :: w.called }

def Watch.leave (w : Watch) (t : ThdId) : Watch := if t ∈ w.called then w else { w with gone := t :: w.gone }

def watchNext (o : Observed) : Label → ThdId → Watch
  | .notify n spd => update o.watch n ⟨blocked o.st spd, [], []⟩
  | .run n =>
    match o.st.pc n with
    | .visit _ (.thd t) _ => update o.watch n ((o.watch n).call t)
    | _ => o.watch
  | .leave t => fun n => (o.watch n).leave t
  | .block _ _ _ => o.watch

def observe (i : Interface) (o : Observed) (label : Label) : Option Observed :=
  (step i o.st label).map fun st => ⟨st, watchNext o label⟩

def stubSystem (i : Interface) : System Observed Label := ⟨⟨init, fun _ => ⟨[], [], []⟩⟩, observe i⟩

/-- The record of the thread can be reached from the head of the list. -/
def OnList (s : State) (spd : SpdId) (t : ThdId) : Prop := ∃ k, s.links.next^[k] (.head spd) = .thd t

def looping : Pc → Bool
  | .visit _ _ _ => true
  | .visited _ _ _ => true
  | _ => false

/-- What the notification of a thread should do. -/
structure Notifies (o : Observed) (n : ThdId) : Prop where
  sound : o.st.pc n ≠ .crashed
  /-- A call is made for linked records only. -/
  visits : ∀ spd cur tmp, o.st.pc n = .visit spd cur tmp → ∃ t, cur = .thd t ∧ OnList o.st spd t
  /-- The loop goes on from the head or from a linked record. -/
  follows : ∀ spd cur tmp, o.st.pc n = .visited spd cur tmp →
    tmp.getD cur = .head spd ∨ ∃ t, tmp.getD cur = .thd t ∧ OnList o.st spd t
  /-- The loop ends after one call for each tracked thread at most. -/
  ends : (o.watch n).called.length ≤ (o.watch n).tracked.length
  /-- When it has ended, every tracked thread was visited unless its call had returned before. -/
  complete : looping (o.st.pc n) = false → ∀ t ∈ (o.watch n).tracked, t ∈ (o.watch n).called ∨ t ∈ (o.watch n).gone

/-- The record of the thread is not the one from which a loop will go on, nor is its key still to be read. -/
def Clear (t : ThdId) : Pc → Prop
  | .visit _ cur tmp => cur ≠ .thd t ∧ tmp ≠ some (.thd t)
  | .visited _ cur tmp => tmp.getD cur ≠ .thd t
  | _ => True

instance (t : ThdId) (pc : Pc) : Decidable (Clear t pc) := by
  unfold Clear
  split <;> infer_instance

def Careful (i : Interface) (o : Observed) : Label → Prop
  | .leave t => o.st.pcs.All fun _ pc => Clear t pc
  | .notify _ spd => i = .evt → o.st.ready spd = true
  | .run t =>
    match o.st.pc t with
    | .initHead spd _ => o.st.ready spd = false
    | _ => True
  | .block _ _ _ => True

instance (i : Interface) : DecidableRel (Careful i) := by
  intro o label
  unfold Careful
  split
  · infer_instance
  · infer_instance
  · split <;> infer_instance
  · infer_instance

/-! ## The lists -/

/-- The threads of each client, in the order of its list. -/
abbrev Members := SpdId → List ThdId

/-- Only the event stub initialises a head on its way to the lock, and has done so when it gets there. -/
def Prepared (i : Interface) (ready : SpdId → Bool) : Pc → Prop
  | .initHead _ _ => i = .evt
  | .enter spd _ => i = .evt → ready spd = true
  | _ => True

structure Lists (i : Interface) (m : Members) (s : State) : Prop where
  linked : Linked s.links
  ring : ∀ spd, IsRing s.links (.head spd :: (m spd).map .thd)
  inside : ∀ spd t, t ∈ m spd ↔ s.pc t = .inside spd
  alone : ∀ t, (∀ spd, s.pc t ≠ .inside spd) → s.links.next (.thd t) = .thd t
  empty : ∀ spd, s.ready spd = false → m spd = []
  prepared : ∀ t, Prepared i s.ready (s.pc t)
  together : i = .lock → ∀ a b, s.ready a = s.ready b

variable {pc : Pc}

theorem Prepared.mono {i : Interface} {ready ready' : SpdId → Bool} (h : Prepared i ready pc)
    (more : ∀ a, ready a → ready' a) : Prepared i ready' pc := by
  cases pc with
  | initHead => exact h
  | enter a => exact fun evt => more a (h evt)
  | _ => trivial

variable {i : Interface} {m m' : Members} {s : State} {o o' : Observed} {t n : ThdId} {spd : SpdId}

theorem Lists.nodup (h : Lists i m s) (spd : SpdId) : (m spd).Nodup :=
  List.Nodup.of_map _ (nodup_cons.mp (isRing_nodup (h.ring spd))).2

theorem Lists.onList (h : Lists i m s) (mem : t ∈ m spd) : OnList s spd t :=
  path_iterate (h.ring spd).2 (mem_map_of_mem mem)

variable {rest : List ThdId} {old : Pc}

section
variable (h : Lists i m s)
include h

theorem Lists.next (suffix : t :: rest <:+ m spd) : s.links.next (.thd t) = (rest.map Node.thd).headD (.head spd) := by
  obtain ⟨front, split⟩ := suffix
  have ring := h.ring spd
  rw [← split, map_append] at ring
  exact isRing_next ring

theorem Lists.next_head (spd : SpdId) : s.links.next (.head spd) = ((m spd).map Node.thd).headD (.head spd) :=
  path_first (h.ring spd).2

/-- A thread goes on outside the lists. -/
theorem Lists.goto (at_ : s.pc t = old) (before : ∀ spd, old ≠ .inside spd)
    (after : ∀ spd, pc ≠ .inside spd) (prepared : Prepared i s.ready pc) : Lists i m (s.goto t pc) := by
  subst at_
  refine ⟨h.linked, h.ring, ?_, ?_, h.empty, ?_, h.together⟩
  · intro spd t'
    rw [goto_pc, h.inside]
    split
    next same =>
      rw [same]
      exact ⟨fun at_ => absurd at_ (before spd), fun at_ => absurd at_ (after spd)⟩
    · rfl
  · intro t' off
    by_cases same : t' = t
    · rw [same]
      exact h.alone t before
    · refine h.alone t' fun spd => ?_
      have here := off spd
      rwa [goto_pc, if_neg same] at here
  · intro t'
    rw [goto_pc]
    split
    · exact prepared
    · exact h.prepared t'

/-- `INIT_LIST` of a head that is still zero changes no link of the model. -/
theorem Lists.initHead (zero : s.ready spd = false) (other : i ≠ .lock) : Lists i m (s.initHead spd) := by
  have single : s.links.next (.head spd) = .head spd := by
    rw [h.next_head, h.empty spd zero]
    rfl
  have same : s.initHead spd = { s with ready := update s.ready spd true } := by
    rw [State.initHead, linked_init h.linked single]
  have more : ∀ a, s.ready a → update s.ready spd true a := by
    intro a on
    rw [update_apply, on, ite_self]
  rw [same]
  refine ⟨h.linked, h.ring, h.inside, h.alone, ?_, fun t => (h.prepared t).mono more, fun lock => absurd lock other⟩
  intro a off
  exact h.empty a (Bool.eq_false_iff.mpr fun on => nomatch off.symm.trans (more a on))

theorem Lists.initHeads (zero : ∀ a, s.ready a = false) : Lists i m s.initHeads := by
  have single : ∀ a, s.links.next (.head a) = .head a := by
    intro a
    rw [h.next_head, h.empty a (zero a)]
    rfl
  have next : s.initHeads.links.next = s.links.next := by
    funext x
    cases x with
    | head a => exact (single a).symm
    | thd => rfl
  have prev : s.initHeads.links.prev = s.links.prev := by
    funext x
    cases x with
    | head a => exact (h.linked.prev_eq_iff.mpr (single a)).symm
    | thd => rfl
  have links : s.initHeads.links = s.links := congrArg₂ Links.mk next prev
  have same : s.initHeads = { s with ready := fun _ => true } := by
    rw [← links]
    rfl
  rw [same]
  exact ⟨h.linked, h.ring, h.inside, h.alone, nofun, fun t => (h.prepared t).mono fun _ _ => rfl, fun _ _ _ => rfl⟩

end

theorem thd_notMem_ring (off : t ∉ m spd) : Node.thd t ∉ Node.head spd :: (m spd).map .thd := by
  simpa using off

def joined (m : Members) (spd : SpdId) (t : ThdId) : Members := update m spd (t :: m spd)

def without (m : Members) (t : ThdId) : Members := fun spd => (m spd).filter (· ≠ t)

variable {key : Key} {l : List ThdId}

/-- A record becomes the first of its list. -/
theorem Lists.join {key' : Key} (h : Lists i m s) (at_ : s.pc t = .enter spd key') (ready : s.ready spd) :
    Lists i (joined m spd t) (link s t spd key) := by
  have alone := h.alone t (at_ ▸ fun _ => nofun)
  have notIn : ∀ a, t ∉ m a := fun a mem => nomatch at_.symm.trans ((h.inside a t).mp mem)
  have links : (link s t spd key).links = s.links.add (.head spd) (.thd t) := by
    rw [link, linked_init h.linked alone]
    rfl
  have pcs : ∀ t', (link s t spd key).pc t' = if t' = t then .inside spd else s.pc t' := by
    intro t'
    rw [link, goto_pc]
    rfl
  refine ⟨?_, ?_, ?_, ?_, ?_, ?_, h.together⟩
  · rw [links]
    exact add_linked h.linked alone nofun
  · intro a
    rw [links, joined, update_apply]
    split
    next same =>
      rw [same]
      exact isRing_add (h.ring spd) (thd_notMem_ring (notIn spd))
    next ne => exact isRing_add_other (h.ring a) (by simpa using Ne.symm ne) (thd_notMem_ring (notIn a))
  · intro a t'
    rw [pcs, joined, update_apply]
    by_cases self : t' = t
    · rw [self]
      split
      next same => simp [same]
      next ne => simp [notIn a, Ne.symm ne]
    · split
      next same => simp [same, self, h.inside]
      · exact h.inside a t'
  · intro t' outside
    have self : t' ≠ t := by
      rintro rfl
      exact outside spd (by rw [pcs, if_pos rfl])
    rw [links, add_next, if_neg (fun same => self (Node.thd.inj same))]
    refine h.alone t' fun a => ?_
    have here := outside a
    rwa [pcs, if_neg self] at here
  · intro a zero
    have ne : a ≠ spd := by
      rintro rfl
      nomatch ready.symm.trans zero
    rw [joined, update_of_ne ne]
    exact h.empty a zero
  · intro t'
    rw [pcs]
    split
    · trivial
    · exact h.prepared t'

theorem filter_off (off : t ∉ l) : l.filter (· ≠ t) = l := by
  refine filter_eq_self.mpr fun u mem => ?_
  exact decide_eq_true fun same => off (same ▸ mem)

theorem filter_other {u : ThdId} (ne : u ≠ t) : (u :: l).filter (· ≠ t) = u :: l.filter (· ≠ t) :=
  filter_cons_of_pos (decide_eq_true ne)

/-- A record leaves its list. -/
theorem Lists.drop (h : Lists i m s) (at_ : s.pc t = .inside spd) : Lists i (without m t) (leave s t) := by
  have mem := (h.inside spd t).mpr at_
  have only : ∀ a, a ≠ spd → t ∉ m a := by
    intro a ne inside
    have same := (h.inside a t).mp inside
    rw [at_] at same
    exact ne (Pc.inside.inj same).symm
  have pcs : ∀ t', (leave s t).pc t' = if t' = t then .out else s.pc t' := by
    intro t'
    rw [leave, goto_pc]
    rfl
  have next := rem_next h.linked (.thd t)
  refine ⟨rem_linked h.linked _, ?_, ?_, ?_, ?_, ?_, h.together⟩
  · intro a
    by_cases same : a = spd
    · obtain ⟨front, back, split⟩ := append_of_mem mem
      have ring := h.ring spd
      have nodup := h.nodup spd
      rw [split, map_append] at ring
      rw [split] at nodup
      obtain ⟨-, right, disjoint⟩ := nodup_append.mp nodup
      have notFront : t ∉ front := fun mem => disjoint t mem t mem_cons_self rfl
      rw [same, without, split, filter_append, filter_cons_of_neg (by simp), filter_off notFront,
        filter_off (nodup_cons.mp right).1, map_append, ← cons_append]
      exact isRing_rem h.linked ring
    · rw [without, filter_off (only a same)]
      exact isRing_rem_other h.linked (h.ring a) (thd_notMem_ring (only a same))
  · intro a t'
    rw [pcs, without, mem_filter, h.inside]
    split
    next same => simp [same]
    next ne => simp [ne]
  · intro t' outside
    change (s.links.rem (.thd t)).next (.thd t') = .thd t'
    rw [next]
    by_cases self : t' = t
    · rw [self, if_pos rfl]
    have alone : s.links.next (.thd t') = .thd t' := by
      refine h.alone t' fun a => ?_
      have here := outside a
      rwa [pcs, if_neg self] at here
    have ne : Node.thd t' ≠ .thd t := fun same => self (Node.thd.inj same)
    rw [if_neg ne, alone, if_neg ne]
  · intro a zero
    have none := h.empty a zero
    rw [without, none]
    rfl
  · intro t'
    rw [pcs]
    split
    · trivial
    · exact h.prepared t'

/-! ## The cursor of a loop -/

/-- The first of the remaining records, or the head. -/
def first (spd : SpdId) (rest : List ThdId) : Node := (rest.map Node.thd).headD (.head spd)

def saved (i : Interface) (spd : SpdId) (rest : List ThdId) : Option Node :=
  if i = .lock then some (first spd rest) else none

/-- The records that a loop has still to visit are the end of the list. -/
structure Pending (w : Watch) (rest all : List ThdId) : Prop where
  suffix : rest <:+ all
  unvisited : ∀ u ∈ rest, u ∈ w.tracked ∧ u ∉ w.called
  covers : ∀ u ∈ w.tracked, u ∈ w.called ∨ u ∈ w.gone ∨ u ∈ rest

/-- Where the loop of a thread is. -/
def Cursor (i : Interface) (m : Members) (w : Watch) : Pc → Prop
  | .visit spd cur tmp => ∃ t rest, cur = .thd t ∧ tmp = saved i spd rest ∧ Pending w (t :: rest) (m spd)
  | .visited spd cur tmp => ∃ rest, tmp = saved i spd rest ∧ Pending w rest (m spd) ∧
      (i ≠ .lock → ∃ t, cur = .thd t ∧ t :: rest <:+ m spd)
  | .crashed => False
  | _ => ∀ t ∈ w.tracked, t ∈ w.called ∨ t ∈ w.gone

/-- Each call was for a tracked thread, and for each thread there was one at most. -/
structure Tidy (w : Watch) : Prop where
  nodup : w.called.Nodup
  tracked : ∀ u ∈ w.called, u ∈ w.tracked

structure Regular (i : Interface) (m : Members) (o : Observed) : Prop where
  lists : Lists i m o.st
  tidy : ∀ n, Tidy (o.watch n)
  cursor : ∀ n, Cursor i m (o.watch n) (o.st.pc n)

variable {w : Watch}

theorem Cursor.done (h : Cursor i m w pc) (off : looping pc = false) : ∀ t ∈ w.tracked, t ∈ w.called ∨ t ∈ w.gone := by
  cases pc with
  | visit _ _ _ | visited _ _ _ => nomatch off
  | crashed => exact h.elim
  | _ => exact h

/-- A list may grow at its front. -/
theorem Cursor.grow (h : Cursor i m w pc) (grows : ∀ a, m a <:+ m' a) : Cursor i m' w pc := by
  have pending : ∀ {rest a}, Pending w rest (m a) → Pending w rest (m' a) :=
    fun p => ⟨p.suffix.trans (grows _), p.unvisited, p.covers⟩
  cases pc with
  | visit =>
    obtain ⟨t, rest, cur_eq, tmp_eq, p⟩ := h
    exact ⟨t, rest, cur_eq, tmp_eq, pending p⟩
  | visited a =>
    obtain ⟨rest, tmp_eq, p, behind⟩ := h
    refine ⟨rest, tmp_eq, pending p, fun other => ?_⟩
    obtain ⟨t, cur_eq, suffix⟩ := behind other
    exact ⟨t, cur_eq, suffix.trans (grows a)⟩
  | crashed => exact h
  | _ => exact h

theorem Watch.mem_leave (w : Watch) (t : ThdId) : t ∈ (w.leave t).called ∨ t ∈ (w.leave t).gone := by
  unfold Watch.leave
  split
  next called => exact .inl called
  · exact .inr mem_cons_self

@[simp]
theorem Watch.leave_called (w : Watch) (t : ThdId) : (w.leave t).called = w.called := by
  unfold Watch.leave
  split <;> rfl

@[simp]
theorem Watch.leave_tracked (w : Watch) (t : ThdId) : (w.leave t).tracked = w.tracked := by
  unfold Watch.leave
  split <;> rfl

theorem Watch.gone_leave (w : Watch) (t : ThdId) {u : ThdId} (h : u ∈ w.gone) : u ∈ (w.leave t).gone := by
  unfold Watch.leave
  split
  · exact h
  · exact mem_cons_of_mem t h

theorem Pending.leave {all : List ThdId} (h : Pending w rest all) (t : ThdId) :
    Pending (w.leave t) (rest.filter (· ≠ t)) (all.filter (· ≠ t)) := by
  refine ⟨h.suffix.filter _, ?_, ?_⟩
  · intro u mem
    rw [Watch.leave_called, Watch.leave_tracked]
    exact h.unvisited u (mem_of_mem_filter mem)
  intro u mem
  rw [Watch.leave_tracked] at mem
  by_cases same : u = t
  · rw [same]
    rcases w.mem_leave t with called | gone
    · exact .inl called
    · exact .inr (.inl gone)
  · rcases h.covers u mem with called | gone | inside
    · exact .inl (by rw [Watch.leave_called]; exact called)
    · exact .inr (.inl (w.gone_leave t gone))
    · exact .inr (.inr (mem_filter.mpr ⟨inside, decide_eq_true same⟩))

theorem first_filter (ne : first spd rest ≠ .thd t) : first spd (rest.filter (· ≠ t)) = first spd rest := by
  cases rest with
  | nil => rfl
  | cons u =>
    have other : u ≠ t := fun same => ne (by rw [same]; rfl)
    rw [filter_other other]
    rfl

theorem saved_filter (ne : saved i spd rest ≠ some (.thd t)) :
    saved i spd (rest.filter (· ≠ t)) = saved i spd rest := by
  unfold saved at ne ⊢
  split
  next lock =>
    rw [if_pos lock] at ne
    rw [first_filter fun same => ne (congrArg some same)]
  · rfl

/-- A record that no loop goes on from may leave its list. -/
theorem Cursor.leave (h : Cursor i m w pc) (clear : Clear t pc) : Cursor i (without m t) (w.leave t) pc := by
  cases pc with
  | visit =>
    obtain ⟨u, rest, rfl, rfl, p⟩ := h
    have other : u ≠ t := fun same => clear.1 (by rw [same])
    have left := p.leave t
    rw [filter_other other] at left
    exact ⟨u, _, rfl, (saved_filter clear.2).symm, left⟩
  | visited a =>
    obtain ⟨rest, rfl, p, behind⟩ := h
    by_cases lock : i = .lock
    · have ne : saved i a rest ≠ some (.thd t) := by
        intro same
        exact clear (by rw [same]; rfl)
      exact ⟨_, (saved_filter ne).symm, p.leave t, fun other => absurd lock other⟩
    obtain ⟨u, rfl, suffix⟩ := behind lock
    have none : ∀ l, saved i a l = none := fun l => if_neg lock
    have other : u ≠ t := by
      intro same
      rw [none] at clear
      exact clear (by rw [same]; rfl)
    refine ⟨_, ?_, p.leave t, fun _ => ⟨u, rfl, ?_⟩⟩
    · rw [none, none]
    · have left := suffix.filter (fun x => decide (x ≠ t))
      rwa [filter_other other] at left
  | crashed => exact h
  | _ =>
    intro u mem
    rw [Watch.leave_tracked] at mem
    rcases h u mem with called | gone
    · exact .inl (by rw [Watch.leave_called]; exact called)
    · exact .inr (w.gone_leave t gone)

/-! ## The steps -/

theorem mem_blocked : t ∈ blocked s spd ↔ s.pc t = .inside spd := by
  rw [blocked, mem_dedup, mem_filter, decide_eq_true_iff]
  refine ⟨fun h => h.2, fun at_ => ⟨?_, at_⟩⟩
  cases found : s.pcs.get t with
  | none =>
    rw [State.pc, found] at at_
    contradiction
  | some pc => exact s.pcs.covers t pc found

theorem notify_zero (zero : s.ready spd = false) (other : i ≠ .evt) : notify i s n spd = s.goto n .out := by
  have off := ne_true_of_eq_false zero
  cases i with
  | sched => exact if_neg off
  | evt => exact absurd rfl other
  | lock => exact if_neg off

theorem init_regular (i : Interface) : Regular i (fun _ => []) (stubSystem i).init := by
  refine ⟨?_, fun _ => ⟨nodup_nil, nofun⟩, nofun⟩
  refine ⟨⟨fun _ => rfl, fun _ => rfl⟩, fun _ => isRing_singleton.mpr rfl, ?_, fun _ _ => rfl, fun _ _ => rfl,
    fun _ => trivial, fun _ _ _ => rfl⟩
  intro _ _
  exact ⟨nofun, nofun⟩

section

variable (h : Regular i m o) {tmp : Option Node}
include h

/-- One thread moves outside the lists and its watch may change. -/
theorem Regular.goto (at_ : o.st.pc n = old) (before : ∀ a, old ≠ .inside a) (after : ∀ a, pc ≠ .inside a)
    (prepared : Prepared i o.st.ready pc) (tidy : Tidy w) (cursor : Cursor i m w pc) :
    Regular i m ⟨o.st.goto n pc, update o.watch n w⟩ := by
  refine ⟨h.lists.goto at_ before after prepared, ?_, ?_⟩
  · intro n'
    change Tidy (update o.watch n w n')
    rw [update_apply]
    split
    · exact tidy
    · exact h.tidy n'
  · intro n'
    change Cursor i m (update o.watch n w n') _
    rw [update_apply, goto_pc]
    split
    · exact cursor
    · exact h.cursor n'

theorem Regular.cursor_at (at_ : o.st.pc n = pc) : Cursor i m (o.watch n) pc := at_ ▸ h.cursor n

/-- The loop stands at the first of the remaining records. -/
theorem Regular.stand (at_ : o.st.pc n = old) (before : ∀ a, old ≠ .inside a) (tidy : Tidy w)
    (pending : Pending w rest (m spd)) :
    Regular i m ⟨scan (i = .lock) o.st n spd (first spd rest), update o.watch n w⟩ := by
  cases rest with
  | nil =>
    have done : ∀ t ∈ w.tracked, t ∈ w.called ∨ t ∈ w.gone := by
      intro t mem
      rcases pending.covers t mem with called | gone | inside
      · exact .inl called
      · exact .inr gone
      · nomatch inside
    have ended : scan (decide (i = .lock)) o.st n spd (first spd []) = o.st.goto n .out := if_pos rfl
    rw [ended]
    exact h.goto at_ before (fun _ => nofun) trivial tidy done
  | cons t rest =>
    have stands : scan (decide (i = .lock)) o.st n spd (first spd (t :: rest)) =
        o.st.goto n (.visit spd (.thd t) (saved i spd rest)) := by
      have next : o.st.links.next (.thd t) = first spd rest := h.lists.next pending.suffix
      change scan (decide (i = .lock)) o.st n spd (.thd t) = _
      have other : Node.thd t ≠ .head spd := nofun
      rw [scan, if_neg other, next, saved]
      simp
    rw [stands]
    exact h.goto at_ before (fun _ => nofun) trivial tidy ⟨t, rest, rfl, rfl, pending⟩

theorem notify_regular (careful : Careful i o (.notify n spd))
    (step : observe i o (.notify n spd) = some o') : Regular i m o' := by
  obtain ⟨st, taken, rfl⟩ := map_eq_some_iff.mp step
  obtain ⟨idle, taken⟩ := ite_none_right_eq_some.mp taken
  cases taken
  have tidy : Tidy ⟨blocked o.st spd, [], []⟩ := ⟨nodup_nil, nofun⟩
  have pending : Pending ⟨blocked o.st spd, [], []⟩ (m spd) (m spd) := by
    refine ⟨suffix_refl _, ?_, ?_⟩
    · intro u mem
      exact ⟨mem_blocked.mpr ((h.lists.inside spd u).mp mem), not_mem_nil⟩
    · intro u mem
      exact .inr (.inr ((h.lists.inside spd u).mpr (mem_blocked.mp mem)))
  cases ready : o.st.ready spd with
  | true =>
    have scans : notify i o.st n spd = scan (decide (i = .lock)) o.st n spd (o.st.links.next (.head spd)) := by
      cases i with
      | sched | evt | lock => exact if_pos ready
    rw [scans, h.lists.next_head]
    exact h.stand idle (fun _ => nofun) tidy pending
  | false =>
    have other : i ≠ .evt := fun evt => nomatch ready.symm.trans (careful evt)
    rw [notify_zero ready other]
    refine h.goto idle (fun _ => nofun) (fun _ => nofun) trivial tidy ?_
    intro t mem
    have inside := (h.lists.inside spd t).mpr (mem_blocked.mp mem)
    rw [h.lists.empty spd ready] at inside
    nomatch inside

/-- The call for the record at the cursor. -/
theorem visit_regular {cur : Node} (at_ : o.st.pc n = .visit spd cur tmp) :
    Regular i m ⟨o.st.goto n (.visited spd cur tmp), watchNext o (.run n)⟩ := by
  obtain ⟨t, rest, rfl, rfl, pending⟩ := h.cursor_at at_
  have watch : watchNext o (.run n) = update o.watch n ((o.watch n).call t) := by
    simp [watchNext, at_]
  have here := pending.unvisited t mem_cons_self
  have tidy := h.tidy n
  have nodup := (h.lists.nodup spd).sublist pending.suffix.sublist
  rw [watch]
  refine h.goto at_ (fun _ => nofun) (fun _ => nofun) trivial ⟨?_, ?_⟩ ⟨rest, rfl, ⟨?_, ?_, ?_⟩, ?_⟩
  · exact nodup_cons.mpr ⟨here.2, tidy.nodup⟩
  · intro u mem
    rcases mem_cons.mp mem with rfl | earlier
    · exact here.1
    · exact tidy.tracked u earlier
  · exact (suffix_cons t rest).trans pending.suffix
  · intro u mem
    obtain ⟨tracked, uncalled⟩ := pending.unvisited u (mem_cons_of_mem t mem)
    refine ⟨tracked, fun called => ?_⟩
    rcases mem_cons.mp called with rfl | earlier
    · exact (nodup_cons.mp nodup).1 mem
    · exact uncalled earlier
  · intro u mem
    rcases pending.covers u mem with called | gone | inside
    · exact .inl (mem_cons_of_mem t called)
    · exact .inr (.inl gone)
    · rcases mem_cons.mp inside with rfl | later
      · exact .inl mem_cons_self
      · exact .inr (.inr later)
  · exact fun _ => ⟨t, rfl, pending.suffix⟩

/-- The loop goes on from where it stands to the next of the remaining records. -/
theorem advance_regular {cur : Node}
    (at_ : o.st.pc n = .visited spd cur tmp) : Regular i m ⟨advance o.st n spd cur tmp, o.watch⟩ := by
  obtain ⟨rest, rfl, pending, behind⟩ := h.cursor_at at_
  have moves : advance o.st n spd cur (saved i spd rest) = scan (decide (i = .lock)) o.st n spd (first spd rest) := by
    by_cases lock : i = .lock
    · rw [saved, if_pos lock, decide_eq_true lock]
      rfl
    · obtain ⟨t, rfl, suffix⟩ := behind lock
      rw [saved, if_neg lock, decide_eq_false lock, advance, h.lists.next suffix]
      rfl
  have stands := h.stand at_ (fun _ => nofun) (h.tidy n) pending
  rw [update_eq_self] at stands
  rw [moves]
  exact stands

/-- A record is linked by a thread that is not in a list. -/
theorem Regular.join {key' : Key} (at_ : o.st.pc t = .enter spd key') (ready : o.st.ready spd) :
    Regular i (joined m spd t) ⟨link o.st t spd key, o.watch⟩ := by
  refine ⟨h.lists.join at_ ready, h.tidy, fun n => ?_⟩
  have grows : ∀ a, m a <:+ joined m spd t a := by
    intro a
    rw [joined, update_apply]
    split
    next same =>
      rw [same]
      exact suffix_cons t (m spd)
    · exact suffix_refl _
  have cursor := (h.cursor n).grow grows
  rw [link, goto_pc]
  split
  next same =>
    rw [same, at_] at cursor
    rw [same]
    exact cursor
  · exact cursor

theorem Regular.initHead (zero : o.st.ready spd = false) (other : i ≠ .lock) :
    Regular i m ⟨o.st.initHead spd, o.watch⟩ :=
  ⟨h.lists.initHead zero other, h.tidy, h.cursor⟩

theorem Regular.initHeads (zero : o.st.ready spd = false) (lock : i = .lock) : Regular i m ⟨o.st.initHeads, o.watch⟩ :=
  ⟨h.lists.initHeads fun a => (h.lists.together lock a spd).trans zero, h.tidy, h.cursor⟩

theorem enter_regular (at_ : o.st.pc t = .enter spd key) :
    Regular i (joined m spd t) ⟨enter i o.st t spd key, o.watch⟩ := by
  cases i with
  | evt =>
    have prepared := h.lists.prepared t
    rw [at_] at prepared
    exact h.join at_ (prepared rfl)
  | sched =>
    rw [enter, sgSchedBlock]
    cases ready : o.st.ready spd with
    | true => exact h.join at_ ready
    | false => exact (h.initHead ready nofun).join at_ (update_self ..)
  | lock =>
    rw [enter, sgLockComponentTake]
    cases ready : o.st.ready spd with
    | true => exact h.join at_ ready
    | false => exact (h.initHeads ready rfl).join at_ rfl

theorem run_regular (careful : Careful i o (.run t))
    (step : observe i o (.run t) = some o') : ∃ m', Regular i m' o' := by
  obtain ⟨st, taken, rfl⟩ := map_eq_some_iff.mp step
  change run i o.st t = some st at taken
  rw [run] at taken
  dsimp only [Careful] at careful
  generalize at_ : o.st.pc t = pc at taken careful
  cases pc with
  | initHead =>
    cases taken
    have prepared := h.lists.prepared t
    have watch : watchNext o (.run t) = update o.watch t (o.watch t) := by
      simp [watchNext, at_]
    rw [at_] at prepared
    rw [watch]
    have evt : i = .evt := prepared
    have ready := h.initHead careful (evt ▸ nofun)
    exact ⟨m, ready.goto at_ (fun _ => nofun) (fun _ => nofun) (fun _ => update_self ..) (h.tidy t)
      (h.cursor_at at_ :)⟩
  | enter =>
    cases taken
    have watch : watchNext o (.run t) = o.watch := by
      simp [watchNext, at_]
    rw [watch]
    exact ⟨_, enter_regular h at_⟩
  | visit =>
    cases taken
    exact ⟨m, visit_regular h at_⟩
  | visited =>
    cases taken
    have watch : watchNext o (.run t) = o.watch := by
      simp [watchNext, at_]
    rw [watch]
    exact ⟨m, advance_regular h at_⟩
  | _ => nomatch taken

theorem block_regular (step : observe i o (.block t spd key) = some o') : Regular i m o' := by
  obtain ⟨st, taken, rfl⟩ := map_eq_some_iff.mp step
  obtain ⟨idle, taken⟩ := ite_none_right_eq_some.mp taken
  have moved : ∀ pc, looping pc = false → pc ≠ .crashed → (∀ a, pc ≠ .inside a) → Prepared i o.st.ready pc →
      Regular i m ⟨o.st.goto t pc, o.watch⟩ := by
    intro pc off sound after prepared
    have ended := h.cursor_at idle
    have cursor : Cursor i m (o.watch t) pc := by
      cases pc with
      | visit _ _ _ | visited _ _ _ => nomatch off
      | crashed => exact absurd rfl sound
      | _ => exact ended
    have goes := h.goto idle (fun _ => nofun) after prepared (h.tidy t) cursor
    rwa [update_eq_self] at goes
  cases i with
  | sched =>
    cases taken
    exact moved _ rfl nofun (fun _ => nofun) nofun
  | evt =>
    obtain ⟨-, taken⟩ := ite_none_left_eq_some.mp taken
    cases taken
    cases ready : o.st.ready spd with
    | true => exact moved (.enter spd key) rfl nofun (fun _ => nofun) fun _ => ready
    | false => exact moved (.initHead spd key) rfl nofun (fun _ => nofun) rfl
  | lock =>
    obtain ⟨-, taken⟩ := ite_none_left_eq_some.mp taken
    cases taken
    exact moved _ rfl nofun (fun _ => nofun) nofun

theorem leave_regular (careful : Careful i o (.leave t))
    (step : observe i o (.leave t) = some o') : Regular i (without m t) o' := by
  obtain ⟨st, taken, rfl⟩ := map_eq_some_iff.mp step
  dsimp only [Source.Stub.Sstub.step] at taken
  split at taken
  next spd at_ =>
    cases taken
    have clear : ∀ n, Clear t (o.st.pc n) := by
      intro n
      rw [State.pc]
      cases found : o.st.pcs.get n with
      | none => trivial
      | some pc => exact careful n pc found
    refine ⟨h.lists.drop at_, ?_, ?_⟩
    · intro n
      have tidy := h.tidy n
      refine ⟨?_, ?_⟩
      · change ((o.watch n).leave t).called.Nodup
        rw [Watch.leave_called]
        exact tidy.nodup
      · change ∀ u ∈ ((o.watch n).leave t).called, u ∈ ((o.watch n).leave t).tracked
        rw [Watch.leave_called, Watch.leave_tracked]
        exact tidy.tracked
    · intro n
      have cursor := (h.cursor n).leave (clear n)
      rw [leave, goto_pc]
      split
      next same =>
        rw [same] at cursor ⊢
        rw [at_] at cursor
        exact cursor
      · exact cursor
  · contradiction

theorem step_regular {label : Label} (careful : Careful i o label)
    (step : observe i o label = some o') : ∃ m', Regular i m' o' := by
  cases label with
  | block => exact ⟨m, block_regular h step⟩
  | notify => exact ⟨m, notify_regular h careful step⟩
  | run => exact run_regular h careful step
  | leave => exact ⟨_, leave_regular h careful step⟩

theorem Regular.notifies (n : ThdId) : Notifies o n := by
  have cursor := h.cursor n
  have tidy := h.tidy n
  refine ⟨?_, ?_, ?_, ?_, cursor.done⟩
  · intro at_
    rw [at_] at cursor
    exact cursor
  · intro spd cur tmp at_
    rw [at_] at cursor
    obtain ⟨t, rest, rfl, -, pending⟩ := cursor
    exact ⟨t, rfl, h.lists.onList (pending.suffix.mem mem_cons_self)⟩
  · intro spd cur tmp at_
    rw [at_] at cursor
    obtain ⟨rest, rfl, pending, behind⟩ := cursor
    by_cases lock : i = .lock
    · rw [saved, if_pos lock]
      -- the first of the remaining records is linked, unless it is the head
      cases rest with
      | nil => exact .inl rfl
      | cons t => exact .inr ⟨t, rfl, h.lists.onList (pending.suffix.mem mem_cons_self)⟩
    · obtain ⟨t, rfl, suffix⟩ := behind lock
      rw [saved, if_neg lock]
      exact .inr ⟨t, rfl, h.lists.onList (suffix.mem mem_cons_self)⟩
  · exact (tidy.nodup.subperm tidy.tracked).length_le

end

/-! ## Every run -/

/-- In runs in which no record is unlinked while a loop is about to go on from it or to read it, and the
event stub finds its list heads initialised, every notification visits linked records only, ends, and has
then reached every thread that was tracked when it started. -/
theorem client_fault_notified (i : Interface) (o : Observed) (reached : Reachable (stubSystem i) (Careful i) o)
    (n : ThdId) : Notifies o n := by
  have regular : ∃ m, Regular i m o := by
    refine reached.invariant (fun o => ∃ m, Regular i m o) ⟨_, init_regular i⟩ ?_
    intro _ _ _ ⟨_, h⟩ careful step
    exact step_regular h careful step
  obtain ⟨m, h⟩ := regular
  exact h.notifies n

/-- Threads 1 and 2 wait for lock 7 of client 3, and thread 9 notifies; a thread leaves when the loop has
gone on to the next record. -/
def orderlyNotification : List Label :=
  [.block 1 3 7, .run 1, .block 2 3 7, .run 2, .notify 9 3, .run 9, .run 9, .leave 2, .run 9, .run 9]

theorem waiting_threads_notified : ∃ o, Run (stubSystem .lock) (Careful .lock) orderlyNotification o ∧
    (o.watch 9).called = [1, 2] ∧ o.st.pc 9 = .out ∧ Notifies o 9 := by
  refine exec_shows (fun o => (o.watch 9).called = [1, 2] ∧ o.st.pc 9 = .out) (by decide) fun o run ⟨called, out⟩ => ?_
  exact ⟨called, out, client_fault_notified .lock o ⟨_, run⟩ 9⟩

/-- The woken thread unlinks its record before the loop goes on, so the record is its own successor. -/
def schedEndless : List Label :=
  [.block 1 3 1, .run 1, .notify 9 3, .run 9, .leave 1, .run 9, .run 9, .run 9, .run 9]

/-- The release wakes both threads, and both unlink their records before the loop goes on. -/
def lockEndless : List Label :=
  [.block 1 3 7, .run 1, .block 2 3 7, .run 2, .notify 9 3, .run 9, .leave 1, .leave 2, .run 9, .run 9, .run 9,
    .run 9, .run 9, .run 9]

/-- No loop of the three stubs does what it should: that of the scheduler and that of the locks stay at a
record that is not linked any more, and that of the events follows a null pointer. -/
theorem notification_endless : (∃ o, Run (stubSystem .sched) anyStep schedEndless o ∧
      (o.watch 9).tracked = [1] ∧ (o.watch 9).called = [1, 1, 1] ∧ ¬ Notifies o 9) ∧
    (∃ o, Run (stubSystem .lock) anyStep lockEndless o ∧
      (o.watch 9).tracked.length = 2 ∧ (o.watch 9).called = [1, 1, 1, 2] ∧ ¬ Notifies o 9) ∧
    ∃ o, Run (stubSystem .evt) anyStep [.notify 9 3] o ∧ ¬ Notifies o 9 := by
  refine ⟨?_, ?_, exec_shows (fun o => o.st.pc 9 = .crashed) (by decide) fun o _ ends notifies => notifies.sound ends⟩
  · refine exec_shows (fun o => (o.watch 9).tracked = [1] ∧ (o.watch 9).called = [1, 1, 1]) (by decide)
      fun o _ ⟨tracked, called⟩ => ⟨tracked, called, fun notifies => ?_⟩
    have ends := notifies.ends
    rw [tracked, called] at ends
    exact absurd ends (by decide)
  · refine exec_shows (fun o => (o.watch 9).tracked.length = 2 ∧ (o.watch 9).called = [1, 1, 1, 2]) (by decide)
      fun o _ ⟨tracked, called⟩ => ⟨tracked, called, fun notifies => ?_⟩
    have ends := notifies.ends
    rw [tracked, called] at ends
    exact absurd ends (by decide)

end SuperGlue.Guarantees.ClientNotification
