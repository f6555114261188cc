import SuperGlue.Source.Ramfs.Stub

/-!
# Recovery of one torrent

What `rd_recover_state` and the redo loop around it achieve in a state whose records name their parents
by client ids: they end, the torrent and its parent are bound to server torrents of their paths, and
nothing that other records say about their torrents changes.
-/
namespace SuperGlue.Guarantees.TorrentReplay
open Nat Option Lib.Slots Source.Stub.Cstub Source.Ramfs.Stub

/-- What a torrent was when the client split it: the server's torrent and the parent it was split
from. -/
structure Origin where
  tor : Tor
  parent : Td

abbrev Births := Td → Origin

/-- The server torrent that an id of the client stands for. -/
def torOf (born : Births) (td : Td) : Tor := if td ≤ 1 then rootTor else (born td).tor

def depth (born : Births) (td : Td) : Nat := (torOf born td).path.length

/-- The root, or a torrent with a record. -/
def Live (s : State) (td : Td) : Prop := td = tdRoot ∨ 2 ≤ td ∧ (s.table.get td).isSome

/-- The id leads to a server torrent of its path. -/
def Bound (born : Births) (s : State) (td : Td) : Prop :=
  s.server.get (s.serverTd td) = some (torOf born td)

/-- What recovery never changes in a record. -/
def shape (s : State) (td : Td) : Option (Td × Param × Nat) :=
  (s.table.get td).map fun rd => (rd.pTid, rd.param, rd.tflags)

/-- A record names its parent by the client's id, and its parameter leads from there to its path. -/
structure Descends (born : Births) (s : State) (td : Td) (rd : RecData) : Prop where
  id : 2 ≤ td
  param : rd.param ≠ []
  parent : rd.pTid = (born td).parent
  live : Live s rd.pTid
  tor : (born td).tor = (torOf born rd.pTid).child rd.param rd.tflags

/-- The record was made or recovered after the last fault that the client knows of. -/
def Current (s : State) (td : Td) (rd : RecData) : Prop :=
  s.table.get td = some rd ∧ rd.fcnt = s.link.globalFaultCnt

/-- No other current record has the server id of this torrent, `pending` ones apart. -/
def Apart (pending : Td → Prop) (s : State) (td : Td) : Prop :=
  ∀ other rd, other ≠ td → Current s other rd → ¬ pending other → rd.sTid ≠ s.serverTd td

/-- The records are right, those of `pending` torrents apart, which are being recovered. -/
structure Sound (born : Births) (pending : Td → Prop) (s : State) : Prop where
  lag : s.link.capCnt ≤ s.link.faultCnt
  root : s.server.get tdRoot = some rootTor
  descends : ∀ td rd, s.table.get td = some rd → Descends born s td rd
  counted : ∀ td rd, s.table.get td = some rd → rd.fcnt ≤ s.link.globalFaultCnt
  bound : s.link.reaches → ∀ td rd, Current s td rd → ¬ pending td → s.server.get rd.sTid = some (born td).tor
  apart : s.link.reaches → ∀ td rd, Current s td rd → ¬ pending td →
    ∀ other rd', Current s other rd' → ¬ pending other → rd.sTid = rd'.sTid → td = other

/-! ## Small facts -/

variable {s : State} {td : Td} {rd : RecData}

theorem serverTd_of (id : 2 ≤ td) (found : s.table.get td = some rd) : s.serverTd td = rd.sTid := by
  unfold State.serverTd
  rw [if_neg (Nat.not_le_of_lt id), found]
  rfl

variable {born : Births}

theorem torOf_of (id : 2 ≤ td) : torOf born td = (born td).tor :=
  if_neg (Nat.not_le_of_lt id)

theorem depth_of (h : Descends born s td rd) : depth born td = depth born rd.pTid + 1 := by
  unfold depth
  rw [torOf_of h.id, h.tor]
  simp [Tor.child]

theorem parent_ne (h : Descends born s td rd) : rd.pTid ≠ td := by
  intro same
  have deeper := depth_of h
  rw [same] at deeper
  omega

variable {s' : State}

variable (same : shape s' = shape s)
include same

/-- Records correspond when the shapes agree. -/
theorem of_shape {rd' : RecData} (found : s'.table.get td = some rd') :
    ∃ rd, s.table.get td = some rd ∧ rd.pTid = rd'.pTid ∧ rd.param = rd'.param ∧ rd.tflags = rd'.tflags := by
  have eq : shape s td = some (rd'.pTid, rd'.param, rd'.tflags) := by rw [← same, shape, found]; rfl
  obtain ⟨rd, found, eq⟩ := map_eq_some_iff.mp eq
  simp only [Prod.mk.injEq] at eq
  exact ⟨rd, found, eq⟩

theorem live_of_shape : Live s' td ↔ Live s td := by
  have eq : (s'.table.get td).isSome = (s.table.get td).isSome := by
    have := congrArg Option.isSome (congrFun same td)
    simpa only [shape, isSome_map] using this
  unfold Live
  rw [eq]

theorem descends_of_shape (h : ∀ td rd, s.table.get td = some rd → Descends born s td rd)
    (td : Td) (rd' : RecData) (found : s'.table.get td = some rd') : Descends born s' td rd' := by
  obtain ⟨rd, old, pTid, param, tflags⟩ := of_shape same found
  have d := h td rd old
  exact ⟨d.id, param ▸ d.param, pTid ▸ d.parent, (live_of_shape same).mpr (pTid ▸ d.live),
    by rw [d.tor, pTid, param, tflags]⟩

omit same

variable {pending : Td → Prop} {a b c : State}

/-- A record with the counters of a fault that came later is not current. -/
theorem sound_of_stale (lag : s.link.capCnt ≤ s.link.faultCnt) (root : s.server.get tdRoot = some rootTor)
    (descends : ∀ td rd, s.table.get td = some rd → Descends born s td rd)
    (stale : ∀ td rd, s.table.get td = some rd → rd.fcnt < s.link.globalFaultCnt) : Sound born pending s where
  lag := lag
  root := root
  descends := descends
  counted := fun td rd found => Nat.le_of_lt (stale td rd found)
  bound := fun _ td rd current _ => absurd current.2 (Nat.ne_of_lt (stale td rd current.1))
  apart := fun _ td rd current => absurd current.2 (Nat.ne_of_lt (stale td rd current.1))

theorem Sound.mono {more : Td → Prop} (h : Sound born pending s)
    (sub : ∀ td, pending td → more td) : Sound born more s where
  lag := h.lag
  root := h.root
  descends := h.descends
  counted := h.counted
  bound := fun reaches td rd current settled =>
    h.bound reaches td rd current (fun p => settled (sub td p))
  apart := fun reaches td rd current settled other rd' current' settled' =>
    h.apart reaches td rd current (fun p => settled (sub td p)) other rd' current' (fun p => settled' (sub other p))

section

variable (h : Sound born pending s) (reaches : s.link.reaches) (current : Current s td rd) (settled : ¬ pending td)
include h reaches current settled

theorem Sound.bound_current : Bound born s td := by
  have id := (h.descends td rd current.1).id
  rw [Bound, serverTd_of id current.1, torOf_of id]
  exact h.bound reaches td rd current settled

theorem Sound.apart_current : Apart pending s td := by
  intro other rd' ne current' settled' same
  rw [serverTd_of (h.descends td rd current.1).id current.1] at same
  exact ne (h.apart reaches other rd' current' settled' td rd current settled same)

end

/-! ## What recovery keeps -/

/-- Recovery keeps the shape of the records, and unless the server fails meanwhile also what they are
bound to. -/
structure Kept (born : Births) (s s' : State) : Prop where
  shape : shape s' = shape s
  faults : s.link.faultCnt ≤ s'.link.faultCnt
  counts : s.link.globalFaultCnt ≤ s'.link.globalFaultCnt
  bound : s'.link.faultCnt = s.link.faultCnt → ∀ td, Bound born s td → Bound born s' td

theorem Kept.refl (born : Births) (s : State) : Kept born s s :=
  ⟨rfl, Nat.le_refl _, Nat.le_refl _, fun _ _ => id⟩

theorem Kept.trans (h : Kept born a b) (k : Kept born b c) : Kept born a c where
  shape := k.shape.trans h.shape
  faults := Nat.le_trans h.faults k.faults
  counts := Nat.le_trans h.counts k.counts
  bound := by
    intro same td old
    have first := h.faults
    have second := k.faults
    exact k.bound (by omega) td (h.bound (by omega) td old)

/-- The invocations that may still see a fault. -/
def cost (s : State) (plan : Plan) : Nat := plan.length + if s.link.reaches then 0 else 1

def Admits (plan : Plan) : Prop := ∀ a ∈ plan, a ≠ .refuse

variable {plan : Plan}

theorem Admits.tail (h : Admits plan) : Admits plan.tail :=
  fun a mem => h a (List.mem_of_mem_tail mem)

/-- What holds after every piece of recovery that ends with an invocation getting through. -/
structure Outcome (born : Births) (pending : Td → Prop) (s s' : State) (plan plan' : Plan) : Prop where
  sound : Sound born pending s'
  reaches : s'.link.reaches = true
  kept : Kept born s s'
  spent : s'.link.globalFaultCnt + cost s' plan' ≤ s.link.globalFaultCnt + cost s plan
  admits : Admits plan'

/-! ## A fault that the stub sees -/

/-- The state after `CSTUB_FAULT_UPDATE`. -/
def seen (s : State) : State :=
  { s with link := ⟨s.link.faultCnt, s.link.faultCnt, s.link.globalFaultCnt + 1⟩ }

theorem faultUpdate_eq (failed : s.link.faultCnt ≠ 0)
    (small : s.link.globalFaultCnt + 1 < counterModulus) : s.faultUpdate = some (seen s) := by
  simp [State.faultUpdate, Link.faultUpdate_eq failed small, seen]

variable {t : State}

/-- All records are stale once the fault is seen, whatever server there is now. -/
theorem Sound.seen (h : Sound born pending s)
    (table : t.table = s.table) (count : t.link.globalFaultCnt = s.link.globalFaultCnt)
    (root : t.server.get tdRoot = some rootTor) : Sound born pending (seen t) := by
  apply sound_of_stale (s := TorrentReplay.seen t) (Nat.le_refl _) root
  · apply descends_of_shape _ h.descends
    funext td
    simp [shape, TorrentReplay.seen, table]
  · intro td rd found
    have found : s.table.get td = some rd := by rw [← table]; exact found
    have counted := h.counted td rd found
    change rd.fcnt < t.link.globalFaultCnt + 1
    omega

theorem Kept.of_reboot (born : Births) (s : State) : Kept born s (TorrentReplay.seen s.reboot) where
  shape := rfl
  faults := le_succ _
  counts := le_succ _
  bound := fun same => absurd same (succ_ne_self _)

/-! ## `rd->fcnt = global_fault_cnt` -/

theorem touch_get (s : State) (c td : Td) : (s.touch c).table.get td =
      if td = c then (s.table.get c).map fun rd => { rd with fcnt := s.link.globalFaultCnt }
      else s.table.get td :=
  s.table.get_modify c _ td

/-- A record of the touched state, and the one it comes from. -/
theorem touch_found {c : Td} (found : (s.touch c).table.get td = some rd) :
    ∃ old, s.table.get td = some old ∧ rd.sTid = old.sTid ∧
      (td = c ∧ rd.fcnt = s.link.globalFaultCnt ∨ td ≠ c ∧ rd.fcnt = old.fcnt) := by
  rw [touch_get] at found
  split at found
  next same =>
    obtain ⟨old, was, rfl⟩ := map_eq_some_iff.mp found
    exact ⟨old, same ▸ was, rfl, .inl ⟨same, rfl⟩⟩
  next ne => exact ⟨rd, found, rfl, .inr ⟨ne, rfl⟩⟩

theorem touch_shape (s : State) (c : Td) : shape (s.touch c) = shape s := by
  funext td
  rw [shape, shape, touch_get]
  split
  next same =>
    rw [same]
    cases s.table.get c <;> rfl
  · rfl

theorem touch_serverTd (s : State) (c td : Td) : (s.touch c).serverTd td = s.serverTd td := by
  rw [State.serverTd, State.serverTd, touch_get]
  split
  · rfl
  · split
    next same =>
      rw [same]
      cases s.table.get c <;> rfl
    · rfl

theorem Kept.touch (born : Births) (s : State) (c : Td) : Kept born s (s.touch c) where
  shape := touch_shape s c
  faults := Nat.le_refl _
  counts := Nat.le_refl _
  bound := by
    intro _ td old
    rw [Bound, touch_serverTd]
    exact old

theorem Sound.touch (h : Sound born pending s) (c : Td) : Sound born (fun td => pending td ∨ td = c) (s.touch c) := by
  have back : ∀ td rd, Current (s.touch c) td rd → ¬ (pending td ∨ td = c) →
      ∃ old, Current s td old ∧ ¬ pending td ∧ rd.sTid = old.sTid := by
    intro td rd current settled
    obtain ⟨old, was, sTid, at_⟩ := touch_found current.1
    rcases at_ with ⟨same, -⟩ | ⟨-, fcnt⟩
    · exact absurd (.inr same) settled
    · exact ⟨old, ⟨was, fcnt ▸ current.2⟩, fun p => settled (.inl p), sTid⟩
  refine ⟨h.lag, h.root, descends_of_shape (touch_shape s c) h.descends, ?_, ?_, ?_⟩
  · intro td rd found
    obtain ⟨old, was, -, ⟨-, fcnt⟩ | ⟨-, fcnt⟩⟩ := touch_found found
    · exact Nat.le_of_eq fcnt
    · exact fcnt ▸ h.counted td old was
  · intro reaches td rd current settled
    obtain ⟨old, current, settled, sTid⟩ := back td rd current settled
    rw [sTid]
    exact h.bound reaches td old current settled
  · intro reaches td rd current settled other rd' current' settled' same
    obtain ⟨old, current, settled, sTid⟩ := back td rd current settled
    obtain ⟨old', current', settled', sTid'⟩ := back other rd' current' settled'
    rw [sTid, sTid'] at same
    exact h.apart reaches td old current settled other old' current' settled' same

/-! ## The replay of a split -/

/-- The torrent has a new server torrent, and nothing else has changed. -/
structure Rebound (born : Births) (s s' : State) (td : Td) (rd : RecData) : Prop where
  link : s'.link = s.link
  server : s'.server = s.server.add (born td).tor
  table : ∀ other, s'.table.get other =
    if other = td then some { rd with sTid := s.server.slot } else s.table.get other

/-- The state after a replayed split, whose temporary record has come and gone. -/
def replayed (s : State) (t : Tor) (rd : RecData) (td : Td) : State :=
  let tmp := ⟨s.serverTd rd.pTid, s.server.slot, rd.param, rd.tflags, s.link.globalFaultCnt⟩
  { s with
    server := s.server.add (t.child rd.param rd.tflags)
    table := ((s.table.add tmp).modify td fun rd => { rd with sTid := s.server.slot }).del s.table.slot }

theorem replay_eq {answer : Answer} {t : Tor} (found : s.table.get td = some rd) (param : rd.param ≠ [])
    (parent : s.server.get (s.serverTd rd.pTid) = some t) (accepted : answer ≠ .refuse) :
    replay s answer rd td = some (replayed s t rd td) := by
  have ne := (SlotMap.slot_ne found).symm
  rw [replay, if_neg accepted, splitServed, parent]
  simp only [map_some, bind_some, SlotMap.get_add, if_true, mapRdDelete, State.rebind,
    SlotMap.get_modify, if_neg ne, if_neg param, replayed]

theorem replay_rebound (found : s.table.get td = some rd) (descends : Descends born s td rd) :
    Rebound born s (replayed s (torOf born rd.pTid) rd td) td rd := by
  have ne := SlotMap.slot_ne found
  refine ⟨rfl, by rw [descends.tor]; rfl, ?_⟩
  intro other
  simp only [replayed, SlotMap.get_del _ s.table.base_le_slot, SlotMap.get_modify, SlotMap.get_add, if_neg ne, found,
    map_some]
  by_cases tmp : other = s.table.slot
  · rw [if_pos tmp, if_neg (fun same => ne (same.symm.trans tmp)), tmp, s.table.get_slot]
  · simp [if_neg tmp]

section Rebound

variable {born : Births} {pending : Td → Prop} {s s' : State} {td : Td} {rd : RecData}

section

variable (h : Rebound born s s' td rd)
include h

theorem Rebound.shape (found : s.table.get td = some rd) : shape s' = shape s := by
  funext other
  rw [TorrentReplay.shape, TorrentReplay.shape, h.table]
  split
  next same =>
    rw [same, found]
    rfl
  · rfl

variable {other : Td}

theorem Rebound.serverTd (ne : other ≠ td) : s'.serverTd other = s.serverTd other := by
  rw [State.serverTd, State.serverTd, h.table, if_neg ne]

theorem Rebound.serverTd_self (id : 2 ≤ td) : s'.serverTd td = s.server.slot := by
  rw [serverTd_of id (by rw [h.table, if_pos rfl])]

theorem Rebound.bound_self (id : 2 ≤ td) : Bound born s' td := by
  rw [Bound, h.serverTd_self id, h.server, SlotMap.get_add, if_pos rfl, torOf_of id]

theorem Rebound.bound_other (ne : other ≠ td) (old : Bound born s other) : Bound born s' other := by
  rw [Bound, h.serverTd ne, h.server]
  exact SlotMap.get_add_of_some old _

theorem Rebound.kept (found : s.table.get td = some rd) (id : 2 ≤ td) : Kept born s s' where
  shape := h.shape found
  faults := Nat.le_of_eq (by rw [h.link])
  counts := Nat.le_of_eq (by rw [h.link])
  bound := by
    intro _ other old
    by_cases same : other = td
    · exact same ▸ h.bound_self id
    · exact h.bound_other same old

/-- A current record after the step: the new one, or an old one that was current. -/
theorem Rebound.current {new : RecData} (current : Current s' other new) :
    other = td ∧ new.sTid = s.server.slot ∨ other ≠ td ∧ Current s other new := by
  obtain ⟨found, fcnt⟩ := current
  rw [h.table] at found
  rw [h.link] at fcnt
  split at found
  next same => exact .inl ⟨same, by rw [← some.inj found]⟩
  next ne => exact .inr ⟨ne, found, fcnt⟩

theorem Rebound.apart (sound : Sound born pending s)
    (reaches : s.link.reaches) (id : 2 ≤ td) : Apart pending s' td := by
  intro other new ne current settled
  rcases h.current current with ⟨same, -⟩ | ⟨-, old⟩
  · exact absurd same ne
  · rw [h.serverTd_self id]
    exact SlotMap.slot_ne (sound.bound reaches other new old settled)

theorem Rebound.sound (sound : Sound born pending s) (found : s.table.get td = some rd) (reaches : s.link.reaches) :
    Sound born (fun other => pending other ∧ other ≠ td) s' := by
  have settle : ∀ other, ¬ (pending other ∧ other ≠ td) → other ≠ td → ¬ pending other :=
    fun other settled ne p => settled ⟨p, ne⟩
  refine ⟨h.link ▸ sound.lag, ?_, descends_of_shape (h.shape found) sound.descends, ?_, ?_, ?_⟩
  · rw [h.server]
    exact SlotMap.get_add_of_some sound.root _
  · intro other new got
    rw [h.table] at got
    rw [h.link]
    split at got
    · rw [← some.inj got]
      exact sound.counted td rd found
    · exact sound.counted other new got
  · intro _ other new current settled
    rw [h.server]
    rcases h.current current with ⟨same, sTid⟩ | ⟨ne, old⟩
    · rw [sTid, SlotMap.get_add, if_pos rfl, same]
    · exact SlotMap.get_add_of_some (sound.bound reaches other new old (settle other settled ne)) _
  · intro _ a new current settled b new' current' settled' same
    rcases h.current current with ⟨atA, sTid⟩ | ⟨neA, old⟩ <;>
      rcases h.current current' with ⟨atB, sTid'⟩ | ⟨neB, old'⟩
    · rw [atA, atB]
    · have held := sound.bound reaches b new' old' (settle b settled' neB)
      exact absurd (same.symm.trans sTid) (SlotMap.slot_ne held)
    · have held := sound.bound reaches a new old (settle a settled neA)
      exact absurd (same.trans sTid') (SlotMap.slot_ne held)
    · exact sound.apart reaches a new old (settle a settled neA) b new' old' (settle b settled' neB) same

end

end Rebound

/-! ## Recovery and the redo loop -/

/-- The torrent can be used: it is bound, and so is its parent if the torrent had to be recovered. -/
structure Settles (born : Births) (pending : Td → Prop) (s s' : State) (td : Td) : Prop where
  bound : Bound born s' td
  parent : ∀ rd, s.table.get td = some rd →
    ¬ (s.link.reaches = true ∧ rd.fcnt = s.link.globalFaultCnt) → Bound born s' rd.pTid
  apart : 2 ≤ td → Apart pending s' td

def RecoversWith (born : Births) (fuel : Nat) : Prop :=
  ∀ pending s plan td rd, Sound born pending s → s.table.get td = some rd → Admits plan →
    s.link.globalFaultCnt + cost s plan < counterModulus → 2 * depth born td + cost s plan ≤ fuel →
    ∃ s' plan', rdRecoverState fuel s plan td = some (s', plan') ∧
      Outcome born (fun other => pending other ∧ other ≠ td) s s' plan plan' ∧
      Bound born s' td ∧ Bound born s' rd.pTid ∧ Apart pending s' td

def ReachesWith (born : Births) (fuel : Nat) : Prop :=
  ∀ pending s plan td, Sound born pending s → Live s td → ¬ pending td → Admits plan →
    s.link.globalFaultCnt + cost s plan < counterModulus → 2 * depth born td + cost s plan + 1 ≤ fuel →
    ∃ s' plan', reach fuel s plan td = some (s', plan') ∧ Outcome born pending s s' plan plan' ∧
      Settles born pending s s' td

theorem Outcome.after {p q r : Plan}
    (kept : Kept born a b) (spent : b.link.globalFaultCnt + cost b q ≤ a.link.globalFaultCnt + cost a p)
    (h : Outcome born pending b c q r) : Outcome born pending a c p r :=
  ⟨h.sound, h.reaches, kept.trans h.kept, Nat.le_trans h.spent spent, h.admits⟩

variable {fuel : Nat}

/-- The part of the loop before the invocation. When it leaves the server out of reach, it has done
nothing. -/
theorem update_settles (recovers : RecoversWith born fuel) (sound : Sound born pending s) (live : Live s td)
    (settled : ¬ pending td) (admits : Admits plan) (small : s.link.globalFaultCnt + cost s plan < counterModulus)
    (enough : 2 * depth born td + cost s plan ≤ fuel) : ∃ s' plan',
      (if td ≤ 1 then some (s, plan) else rdUpdate (rdRecoverState fuel) s plan td) = some (s', plan') ∧
      (s' = s ∧ plan' = plan ∧ (s.link.reaches → Settles born pending s s' td) ∨
        Outcome born pending s s' plan plan' ∧ Settles born pending s s' td) := by
  rcases live with root | ⟨id, some_⟩
  · refine ⟨s, plan, by rw [root]; rfl, .inl ⟨rfl, rfl, fun _ => ⟨root ▸ sound.root, ?_, ?_⟩⟩⟩
    · intro rd found
      have := (sound.descends td rd found).id
      rw [root] at this
      exact absurd this (by decide)
    · intro id
      rw [root] at id
      exact absurd id (by decide)
  · obtain ⟨rd, found⟩ := isSome_iff_exists.mp some_
    rw [if_neg (Nat.not_le_of_lt id), rdUpdate, found]
    dsimp only
    by_cases current : rd.fcnt = s.link.globalFaultCnt
    · rw [if_pos current]
      refine ⟨s, plan, rfl, .inl ⟨rfl, rfl, fun reaches => ⟨?_, ?_, ?_⟩⟩⟩
      · exact sound.bound_current reaches ⟨found, current⟩ settled
      · intro rd' found' stale
        rw [found] at found'
        cases found'
        exact absurd ⟨reaches, current⟩ stale
      · intro _
        exact sound.apart_current reaches ⟨found, current⟩ settled
    · rw [if_neg current]
      have touched : (s.touch td).table.get td = some { rd with fcnt := s.link.globalFaultCnt } := by
        rw [touch_get, if_pos rfl, found]
        rfl
      obtain ⟨s', plan', run, outcome, bound, parent, apart⟩ :=
        recovers _ (s.touch td) plan td _ (sound.touch td) touched admits small enough
      have exact_ : ∀ other, (pending other ∨ other = td) ∧ other ≠ td → pending other :=
        fun other h => h.1.resolve_right h.2
      refine ⟨s', plan', run, .inr ⟨?_, bound, ?_, ?_⟩⟩
      · have outcome := Outcome.after (Kept.touch born s td) (Nat.le_refl _) outcome
        exact ⟨outcome.sound.mono exact_, outcome.reaches, outcome.kept, outcome.spent, outcome.admits⟩
      · intro rd' found' _
        rw [found] at found'
        cases found'
        exact parent
      · intro _ other new ne current unsettled
        exact apart other new ne current (fun p => unsettled (p.resolve_right ne))

/-- One round of the loop around an invocation. -/
theorem reaches_succ (recovers : RecoversWith born fuel)
    (reaches : ReachesWith born fuel) : ReachesWith born (fuel + 1) := by
  intro pending s plan td sound live settled admits small enough
  obtain ⟨s1, plan1, update, after⟩ := update_settles recovers sound live settled admits small (by omega)
  have kept : Kept born s s1 ∧ Sound born pending s1 ∧ Admits plan1 ∧
      s1.link.globalFaultCnt + cost s1 plan1 ≤ s.link.globalFaultCnt + cost s plan := by
    rcases after with ⟨rfl, rfl, -⟩ | ⟨outcome, -⟩
    · exact ⟨Kept.refl born s1, sound, admits, Nat.le_refl _⟩
    · exact ⟨outcome.kept, outcome.sound, outcome.admits, outcome.spent⟩
  obtain ⟨kept, sound1, admits1, spent⟩ := kept
  have counts := kept.counts
  -- A fault in the state `t`, which has the records of `s1`, starts the loop again.
  have again : ∀ (t : State) (rest : Plan), t.table = s1.table →
      t.link.globalFaultCnt = s1.link.globalFaultCnt → t.server.get tdRoot = some rootTor →
      Kept born s1 (seen t) → rest.length + 1 ≤ cost s1 plan1 → Admits rest →
      ∃ s' plan', reach fuel (seen t) rest td = some (s', plan') ∧
        Outcome born pending s s' plan plan' ∧ Settles born pending s s' td := by
    intro t rest table count root kept' shorter admits'
    have shape' := kept'.shape.trans kept.shape
    have cost' : cost (seen t) rest = rest.length := by simp [cost, seen, Link.reaches]
    have count' : (seen t).link.globalFaultCnt = t.link.globalFaultCnt + 1 := rfl
    obtain ⟨s', plan', run, outcome, settles⟩ := reaches pending (seen t) rest td
      (sound1.seen table count root) ((live_of_shape shape').mpr live) settled admits'
      (by omega) (by omega)
    refine ⟨s', plan', run, outcome.after (kept.trans kept') (by omega), settles.bound, fun rd found _ => ?_,
      settles.apart⟩
    -- no record is current once the fault was seen
    obtain ⟨rd', found', pTid, -⟩ := of_shape shape'.symm found
    refine pTid ▸ settles.parent rd' found' fun now => ?_
    have counted := sound1.counted td rd' (by rw [← table]; exact found')
    omega
  rw [reach, update]
  simp only [bind_some]
  by_cases open_ : s1.link.reaches = true
  · rw [if_pos open_]
    have settles : Settles born pending s s1 td := by
      rcases after with ⟨rfl, -, settles⟩ | ⟨-, settles⟩
      · exact settles open_
      · exact settles
    split
    next rest =>
      have cost1 : cost s1 (.fault :: rest) = rest.length + 1 := by
        simp [cost, open_]
      have failed : s1.reboot.link.faultCnt ≠ 0 := succ_ne_zero _
      have count : s1.reboot.link.globalFaultCnt = s1.link.globalFaultCnt := rfl
      rw [faultUpdate_eq failed (by omega)]
      exact again s1.reboot rest rfl rfl rfl (Kept.of_reboot born s1) (by omega) (Admits.tail admits1)
    · exact ⟨s1, plan1, rfl, ⟨sound1, open_, kept, spent, admits1⟩, settles⟩
  · rw [if_neg open_]
    have cost1 : cost s1 plan1 = plan1.length + 1 := by
      simp [cost, open_]
    rw [faultUpdate_eq (Link.failed sound1.lag open_) (by omega)]
    exact again s1 plan1 rfl rfl sound1.root ⟨rfl, Nat.le_refl _, Nat.le_succ _, fun _ _ => id⟩ (by omega) admits1

/-- The root is never pending, as it has no record. -/
theorem Sound.drop_root (h : Sound born pending s) : Sound born (fun other => pending other ∧ other ≠ tdRoot) s := by
  have settle : ∀ td rd, Current s td rd → ¬ (pending td ∧ td ≠ tdRoot) → ¬ pending td := by
    intro td rd current settled p
    have id := (h.descends td rd current.1).id
    exact settled ⟨p, fun root => absurd (root ▸ id) (by decide)⟩
  exact ⟨h.lag, h.root, h.descends, h.counted,
    fun reaches td rd current settled => h.bound reaches td rd current (settle td rd current settled),
    fun reaches td rd current settled other rd' current' settled' =>
      h.apart reaches td rd current (settle td rd current settled) other rd' current'
        (settle other rd' current' settled')⟩

/-- The parent is recovered before the torrent, unless it is the root. -/
theorem parent_recovered (recovers : ∀ m < fuel, RecoversWith born m) {pTid : Td} (sound : Sound born pending s)
    (live : Live s pTid) (admits : Admits plan) (small : s.link.globalFaultCnt + cost s plan < counterModulus)
    (enough : 2 * depth born pTid + cost s plan + 1 ≤ fuel) :
    ∃ s' plan', recoverParent fuel s plan pTid = some (s', plan') ∧
      Sound born (fun other => pending other ∧ other ≠ pTid) s' ∧ Kept born s s' ∧
      s'.link.globalFaultCnt + cost s' plan' ≤ s.link.globalFaultCnt + cost s plan ∧ Admits plan' := by
  cases fuel with
  | zero => omega
  | succ fuel =>
    rw [recoverParent]
    rcases live with root | ⟨id, some_⟩
    · subst root
      exact ⟨s, plan, rfl, sound.drop_root, Kept.refl born s, Nat.le_refl _, admits⟩
    obtain ⟨prd, found⟩ := isSome_iff_exists.mp some_
    rw [if_pos (show pTid > 1 from id), if_pos some_]
    have touched : (s.touch pTid).table.get pTid = some { prd with fcnt := s.link.globalFaultCnt } := by
      rw [touch_get, if_pos rfl, found]
      rfl
    obtain ⟨s', plan', run, outcome, -⟩ :=
      recovers fuel (lt_succ_self fuel) _ (s.touch pTid) plan pTid _ (sound.touch pTid) touched
        admits small (le_of_succ_le_succ enough)
    have outcome := Outcome.after (Kept.touch born s pTid) (Nat.le_refl _) outcome
    refine ⟨s', plan', run, ?_, outcome.kept, outcome.spent, outcome.admits⟩
    exact outcome.sound.mono fun other h => ⟨h.1.resolve_right h.2, h.2⟩

theorem cost_tail (link : s'.link = s.link) (plan : Plan) : cost s' plan.tail ≤ cost s plan := by
  have shorter : plan.tail.length ≤ plan.length := List.length_tail ▸ sub_le _ _
  unfold cost
  rw [link]
  omega

theorem accepted_head (h : Admits plan) : plan.headD .accept ≠ .refuse := by
  cases plan with
  | nil => exact Answer.noConfusion
  | cons a => exact h a List.mem_cons_self

/-- `rd_recover_state` from the recovery of the parent on. -/
theorem recovers_succ (recovers : ∀ m < fuel, RecoversWith born m)
    (reaches : ReachesWith born fuel) : RecoversWith born (fuel + 1) := by
  intro pending s plan td rd sound found admits small enough
  have descends := sound.descends td rd found
  have deeper := depth_of descends
  obtain ⟨s1, plan1, run1, sound1, kept1, spent1, admits1⟩ :=
    parent_recovered recovers sound descends.live admits small (by omega)
  have counts1 := kept1.counts
  obtain ⟨s2, plan2, run2, outcome2, settles⟩ :=
    reaches _ s1 plan1 rd.pTid sound1 ((live_of_shape kept1.shape).mpr descends.live)
      (fun h => h.2 rfl) admits1 (by omega) (by omega)
  have kept2 := kept1.trans outcome2.kept
  obtain ⟨rd2, found2, pTid, param, tflags⟩ := of_shape kept2.shape.symm found
  have descends2 := outcome2.sound.descends td rd2 found2
  have bound2 := pTid ▸ settles.bound
  have run3 : replay s2 (plan2.headD .accept) rd td = some (replayed s2 (torOf born rd2.pTid) rd2 td) := by
    rw [← replay_eq found2 descends2.param bound2 (accepted_head outcome2.admits)]
    simp [replay, pTid, param, tflags]
  have rebound := replay_rebound found2 descends2
  refine ⟨replayed s2 (torOf born rd2.pTid) rd2 td, plan2.tail, ?_, ⟨?_, ?_, ?_, ?_, outcome2.admits.tail⟩, ?_, ?_, ?_⟩
  · have admitted : ¬ (rd.pTid < 1 ∨ td ≤ 1) := by
      rintro (low | low)
      · rcases descends.live with root | ⟨id, -⟩
        · rw [root] at low
          exact absurd low (by decide)
        · exact Nat.not_le_of_lt low (Nat.le_trans (by decide) id)
      · exact Nat.not_le_of_lt descends.id low
    rw [rdRecoverState, found]
    simp only [bind_some, if_neg admitted, run1, run2, run3, map_some]
  · refine (rebound.sound outcome2.sound found2 outcome2.reaches).mono ?_
    exact fun other h => ⟨h.1.1, h.2⟩
  · exact outcome2.reaches
  · exact kept2.trans (rebound.kept found2 descends2.id)
  · have spent2 := outcome2.spent
    have tail := cost_tail rebound.link plan2
    rw [rebound.link]
    omega
  · exact rebound.bound_self descends2.id
  · rw [← pTid]
    exact rebound.bound_other (parent_ne descends2) bound2
  · intro other new ne current settled
    exact rebound.apart outcome2.sound outcome2.reaches descends2.id other new ne current (fun h => settled h.1)

theorem recovers_and_reaches (born : Births) (fuel : Nat) : RecoversWith born fuel ∧ ReachesWith born fuel := by
  induction fuel using Nat.strongRecOn with
  | ind fuel ih =>
    cases fuel with
    | zero =>
      constructor
      · intro pending s plan td rd sound found _ _ enough
        have deeper := depth_of (sound.descends td rd found)
        omega
      · intro pending s plan td _ _ _ _ _ enough
        omega
    | succ fuel =>
      have last := ih fuel (lt_succ_self fuel)
      refine ⟨recovers_succ ?_ last.2, reaches_succ last.1 last.2⟩
      exact fun m lt => (ih m (lt_succ_of_lt lt)).1

/-- With enough fuel for the depth of the torrent and the faults to come, a use gets to the server with
the torrent bound. -/
theorem reach_settles (sound : Sound born (fun _ => False) s) (live : Live s td) (admits : Admits plan)
    (small : s.link.globalFaultCnt + cost s plan < counterModulus)
    (enough : 2 * depth born td + cost s plan + 1 ≤ fuel) : ∃ s' plan', reach fuel s plan td = some (s', plan') ∧
      Outcome born (fun _ => False) s s' plan plan' ∧ Settles born (fun _ => False) s s' td :=
  (recovers_and_reaches born fuel).2 _ s plan td sound live id admits small enough

end SuperGlue.Guarantees.TorrentReplay
