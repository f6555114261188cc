import SuperGlue.Guarantees.EventForest

/-!
# Re-creation of one event

`rd_update` of a stale event in a world that has seen its last fault. The records of the stub form a
forest whose parents have smaller ids, so that the recursion to a parent that the server has lost ends
at a group the server knows or at the root, and each event below it is then re-created in its group.
-/
namespace SuperGlue.Guarantees.EventReplay
open Int Nat Option Function List Lib.FiniteMap Lib.Slots Source.Stub.Cstub Source.Event.Stub Source.Event.Service EventForest
open Source.Event (Groups.State)
open Source.Event.Groups (cvectMaxId slot slot_small)

theorem freshPtr_fresh (s : Groups.State) : freshPtr s ∉ s.live := by
  intro mem
  have le := Finset.le_sup (f := id) mem
  exact absurd le (not_succ_le_self _)

/-! ## Splits in a world -/

/-- The id that a successful split gets, and what the name server has then. -/
structure Granted (w w' : World) (spdid : SpdId) (existing ret : Int) : Prop where
  new : existing = 0 → ret = w.ns.slot ∧ w'.ns = w.ns.add spdid
  old : existing ≠ 0 → ret = existing ∧ (w.ns.get existing.toNat).isSome ∧ w'.ns = w.ns

variable {w w' : World} {parent : Eid}

theorem splitServed_effect (named : Named w.server) {memory : Memory} {spdid : SpdId}
    {existing : Eid} {grp ret : Int} (run : splitServed w memory spdid parent grp existing = some (w', ret)) :
    Named w'.server ∧ w'.client = w.client ∧ (ret < 0 ∧ describe w'.server = describe w.server ∧ w'.ns = w.ns ∨
        0 < ret ∧ Granted w w' spdid existing ret ∧ Under w.server parent spdid ∧
          describe w.server ret = none ∧ describe w'.server = if memory.page then update (describe w.server) ret
            (some ⟨typeOf (grp != 0), groupOf parent, spdid⟩) else describe w.server) := by
  obtain ⟨⟨server, v⟩, split, same⟩ := map_eq_some_iff.mp run
  obtain ⟨rfl, rfl⟩ := Prod.mk.inj same
  obtain ⟨named', ⟨negative, described⟩ | ⟨pos, granted, under, unused, described⟩⟩ := evtSplit_effect named split
  · exact ⟨named', rfl, .inl ⟨negative, described, if_neg (not_lt.mpr (le_of_lt negative))⟩⟩
  refine ⟨named', rfl, .inr ⟨pos, ⟨?_, ?_⟩, under, granted ▸ unused, granted ▸ described⟩⟩
  · intro fresh
    rw [nsAlloc, if_pos fresh] at granted
    refine ⟨granted, ?_⟩
    rw [if_pos pos, nsAlloc, if_pos fresh]
  · intro known
    rw [nsAlloc, if_neg known] at granted
    split at granted
    next registered =>
      refine ⟨granted, registered, ?_⟩
      rw [if_pos pos, nsAlloc, if_neg known, if_pos registered]
    · have granted : v = -1 := granted
      rw [granted] at pos
      exact absurd pos (by decide)

/-! ## Records and the server -/

/-- What the server should know about a tracked event. -/
def descRd (spd : SpdId) (rd : RecData) : Desc := ⟨typeOf (rd.grp != 0), groupOf rd.pEvtid, spd⟩

/-- A record as `evt_split` leaves it: the parent is the root or an older group of the client. -/
structure Recorded (w : World) (e : Eid) (rd : RecData) : Prop where
  positive : 0 < e
  small : e < cvectMaxId
  owner : w.ns.get e.toNat = some w.client.spd
  spdid : rd.spdid = w.client.spd
  counted : rd.fcnt ≤ w.client.link.globalFaultCnt
  parent : rd.pEvtid ≠ 0 → rd.pEvtid < e ∧ ∃ prd, w.client.table.get rd.pEvtid = some prd ∧ prd.grp ≠ 0

/-- The record has been refreshed since the stub saw the last fault. -/
def Current (w : World) (rd : RecData) : Prop := rd.fcnt = w.client.link.globalFaultCnt

/-- The server has a tracked event if its record is current, except for those that are being
re-created; after a fault that the stub has not seen it has none. -/
structure Sound (pending : List Eid) (w : World) : Prop where
  named : Named w.server
  lag : w.client.link.capCnt ≤ w.client.link.faultCnt
  unfreed : w.ns.freed = []
  recorded : ∀ e rd, w.client.table.get e = some rd → Recorded w e rd
  known : ∀ e rd, w.client.table.get e = some rd → w.client.link.reaches → Current w rd → e ∉ pending →
    describe w.server e = some (descRd w.client.spd rd)
  unknown : ∀ e rd, w.client.table.get e = some rd →
    (w.client.link.reaches → Current w rd → e ∈ pending) → describe w.server e = none

variable {e : Eid}

variable {rd : RecData}

theorem Recorded.slot (h : Recorded w e rd) : slot e = e :=
  slot_small h.positive h.small

/-- The invocation that re-creates an event. -/
def ask (e : Eid) (rd : RecData) : Invocation := .splitExist rd.spdid rd.pEvtid rd.grp e

theorem again_eq (found : w.client.table.get e = some rd) (recorded : Recorded w e rd) (stack : List Eid) (task : Task)
    : again w.client e stack task = some (w.client, .invoke (ask e rd) (.existing e stack task)) := by
  rw [again, recorded.slot, found]
  rfl

/-! ## Refreshing a record -/

/-- `rd->fcnt = global_fault_cnt` in a world. -/
def World.touch (w : World) (e : Eid) (rd : RecData) : World := { w with client := w.client.touch e rd }

section Touch

variable {w : World} {e : Eid} {rd : RecData} {pending : List Eid} {rd' : RecData}

/-- A record after another, or the same, was refreshed. -/
theorem touch_found (at_ : slot e = e) {k : Eid} (found : (World.touch w e rd).client.table.get k = some rd') :
    k = e ∧ rd' = { rd with fcnt := w.client.link.globalFaultCnt } ∨ k ≠ e ∧ w.client.table.get k = some rd' := by
  change ((w.client.table.set (Source.Event.Groups.slot e) _).get k) = some rd' at found
  rw [at_] at found
  exact update_known found

theorem touch_self (w : World) (rd : RecData) (at_ : slot e = e) : (World.touch w e rd).client.table.get e =
    some { rd with fcnt := w.client.link.globalFaultCnt } := by
  rw [World.touch, Client.touch, at_, Table.get_set_self]

theorem touch_get (at_ : slot e = e) (found : w.client.table.get e = some rd) {k : Eid}
    (other : w.client.table.get k = some rd') :
    ∃ fcnt, (World.touch w e rd).client.table.get k = some { rd' with fcnt } ∧
      (rd'.fcnt = w.client.link.globalFaultCnt → fcnt = w.client.link.globalFaultCnt) := by
  change ∃ fcnt, (w.client.table.set (Source.Event.Groups.slot e) _).get k = _ ∧ _
  rw [at_, Table.get_set]
  split
  next same =>
    rw [same, found] at other
    cases other
    exact ⟨_, rfl, fun _ => rfl⟩
  · exact ⟨rd'.fcnt, other, id⟩

section

variable (sound : Sound pending w) (found : w.client.table.get e = some rd)
include sound found

theorem touch_sound (stale : ¬ Current w rd) : Sound (e :: pending) (World.touch w e rd) := by
  have recorded := sound.recorded e rd found
  have parent : ∀ k rd', Recorded w k rd' → rd'.pEvtid ≠ 0 →
      rd'.pEvtid < k ∧ ∃ prd, (World.touch w e rd).client.table.get rd'.pEvtid = some prd ∧ prd.grp ≠ 0 := by
    intro k rd' old inner
    obtain ⟨lt, prd, at_, group⟩ := old.parent inner
    obtain ⟨fcnt, at_, -⟩ := touch_get recorded.slot found at_
    exact ⟨lt, _, at_, group⟩
  refine ⟨sound.named, sound.lag, sound.unfreed, ?_, ?_, ?_⟩
  · intro k rd' found'
    rcases touch_found recorded.slot found' with ⟨rfl, rfl⟩ | ⟨-, old⟩
    · exact ⟨recorded.positive, recorded.small, recorded.owner, recorded.spdid, le_refl _,
        parent k rd recorded⟩
    · have old := sound.recorded k rd' old
      exact ⟨old.positive, old.small, old.owner, old.spdid, old.counted, parent k rd' old⟩
  · intro k rd' found' reaches current outside
    rcases touch_found recorded.slot found' with ⟨rfl, -⟩ | ⟨-, old⟩
    · exact absurd mem_cons_self outside
    · exact sound.known k rd' old reaches current (fun inside => outside (mem_cons_of_mem e inside))
  · intro k rd' found' absent
    rcases touch_found recorded.slot found' with ⟨rfl, -⟩ | ⟨other, old⟩
    · exact sound.unknown k rd found fun _ current => absurd current stale
    · refine sound.unknown k rd' old fun reaches current => ?_
      exact (mem_cons.mp (absent reaches current)).resolve_left other

/-- `rd_update` of a stale record. -/
theorem rdUpdate_stale (stale : ¬ Current w rd) (stack : List Eid) (task : Task) : rdUpdate w.client e stack task =
      some ((World.touch w e rd).client, .invoke (ask e rd) (.existing e stack task)) := by
  have recorded := sound.recorded e rd found
  have found' := touch_self w rd recorded.slot
  have stale : ¬ rd.fcnt = w.client.link.globalFaultCnt := stale
  simp only [rdUpdate, if_neg (ne_of_gt recorded.positive),
    if_neg (not_lt.mpr (le_of_lt recorded.positive)), recorded.slot, found, if_neg stale]
  exact again_eq found' ((touch_sound sound found stale).recorded e _ found') stack task

theorem rdUpdate_current (current : Current w rd) (stack : List Eid) (task : Task) :
    rdUpdate w.client e stack task = returned w.client true stack task := by
  have recorded := sound.recorded e rd found
  have current : rd.fcnt = w.client.link.globalFaultCnt := current
  simp only [rdUpdate, if_neg (ne_of_gt recorded.positive),
    if_neg (not_lt.mpr (le_of_lt recorded.positive)), recorded.slot, found, if_pos current]

end

end Touch

/-! ## One invocation -/

/-- The stub goes on in a world whose server has changed. -/
def answered (w : World) (action : Option (Client × Action)) : Option (World × Action) :=
  action.map fun (c, action) => ({ w with client := c }, action)

/-- The events of the stack are being re-created, the innermost parent first. -/
structure Nested (w : World) (nest : List Eid) : Prop where
  reaches : w.client.link.reaches
  sorted : nest.Pairwise (· < ·)
  current : ∀ e ∈ nest, ∃ rd, w.client.table.get e = some rd ∧ Current w rd

theorem nested_touch (recorded : Recorded w e rd)
    (reaches : w.client.link.reaches) : Nested (World.touch w e rd) [e] where
  reaches := reaches
  sorted := pairwise_singleton _ e
  current := by
    intro k mem
    obtain rfl := mem_singleton.mp mem
    exact ⟨_, touch_self w rd recorded.slot, rfl⟩

section Exchange

variable {w : World} {e : Eid} {stack : List Eid} {rd : RecData} {prd : RecData}

/-- The parent of the innermost event is not among those being re-created. -/
theorem parent_outside (nested : Nested w (e :: stack)) {p : Eid} (lt : p < e) : p ∉ e :: stack := by
  intro member
  rcases mem_cons.mp member with rfl | member
  · exact absurd lt (lt_irrefl p)
  · exact absurd (lt_trans lt ((pairwise_cons.mp nested.sorted).1 p member)) (lt_irrefl p)

section

variable (sound : Sound (e :: stack) w) (nested : Nested w (e :: stack)) (found : w.client.table.get e = some rd)
include sound nested found

/-- The server gets the event. -/
theorem created_sound {server : Groups.State} (named : Named server)
    (described : describe server = update (describe w.server) e (some (descRd w.client.spd rd))) :
    Sound stack { w with server } := by
  have ne : ∀ k ∈ stack, k ≠ e := by
    intro k mem same
    exact absurd ((pairwise_cons.mp nested.sorted).1 k mem) (same ▸ lt_irrefl k)
  refine ⟨named, sound.lag, sound.unfreed, fun k rd' at_ => ?_, ?_, ?_⟩
  · have old := sound.recorded k rd' at_
    exact { old with }
  · intro k rd' at_ reaches current outside
    rw [described, update_apply]
    split
    next same =>
      rw [same, found] at at_
      cases at_
      rfl
    next other =>
      exact sound.known k rd' at_ reaches current fun inside =>
        (mem_cons.mp inside).elim other outside
  · intro k rd' at_ absent
    obtain ⟨rd0, found0, current0⟩ := nested.current e mem_cons_self
    have other : k ≠ e := by
      intro same
      subst same
      rw [found0] at at_
      cases at_
      exact ne k (absent nested.reaches current0) rfl
    rw [described, update_of_ne other]
    exact sound.unknown k rd' at_ fun reaches current =>
      mem_cons_of_mem e (absent reaches current)

/-- `evt_split_exist` below a parent that the server has. -/
theorem exchange_settles (task : Task)
    (known : rd.pEvtid ≠ 0 → ∀ prd, w.client.table.get rd.pEvtid = some prd → Current w prd) :
    ∃ server, exchange plenty w (ask e rd) (.existing e stack task) =
        answered { w with server } (returned w.client true stack task) ∧
      Sound stack { w with server } ∧
      describe server e = some (descRd w.client.spd rd) := by
  have recorded := sound.recorded e rd found
  have pos := recorded.positive
  have answer : nsAlloc w.ns rd.spdid e = (w.ns, e) := by
    rw [nsAlloc, if_neg (ne_of_gt pos), if_pos (by rw [recorded.owner]; rfl)]
  have unused := sound.unknown e rd found fun _ _ => mem_cons_self
  have under : Under w.server rd.pEvtid rd.spdid := by
    intro inner
    obtain ⟨lt, prd, found, group⟩ := recorded.parent inner
    have above := sound.recorded _ prd found
    refine ⟨above.positive, _, above.slot ▸ sound.known _ prd found nested.reaches (known inner prd found)
      (parent_outside nested lt), ?_, recorded.spdid.symm⟩
    rw [descRd, typeOf, if_pos (bne_iff_ne.mpr group)]
  -- a registered id that the server does not have is created below a group that it has
  obtain ⟨server, created, named, described⟩ :=
    evtSplit_creates sound.named under (rd.grp != 0) (freshPtr_fresh w.server) pos recorded.small unused
  have split : splitServed w plenty rd.spdid rd.pEvtid rd.grp e = some ({ w with server }, e) := by
    simp [splitServed, plenty, answer, created]
  rw [recorded.spdid] at described
  refine ⟨server, ?_, created_sound sound nested found named described, ?_⟩
  · have valid : e ≠ einval := by
      rintro rfl
      exact absurd pos (by decide)
    simp only [exchange, if_pos nested.reaches, serve, ask, split, bind_some, resume, existed,
      if_neg valid, if_neg (not_lt.mpr (le_of_lt pos)), if_neg (ne_of_gt pos), answered]
  · rw [described, update_self]
    rfl

/-- `evt_split_exist` below a parent that the server has lost. -/
theorem exchange_descends (task : Task) (inner : rd.pEvtid ≠ 0) (parent : w.client.table.get rd.pEvtid = some prd)
    (stale : ¬ Current w prd) : exchange plenty w (ask e rd) (.existing e stack task) =
      some (World.touch w rd.pEvtid prd, .invoke (ask rd.pEvtid prd) (.existing rd.pEvtid (e :: stack) task)) := by
  have recorded := sound.recorded e rd found
  have above := sound.recorded _ prd parent
  have lost := sound.unknown _ prd parent fun _ current => absurd current stale
  have unknown := map_eq_none_iff.mp lost
  have split : splitServed w plenty rd.spdid rd.pEvtid rd.grp e = some (w, einval) := by
    simp only [splitServed, Source.Event.Groups.evtSplit, if_neg inner, if_neg above.positive.not_gt, above.slot, unknown]
    rfl
  simp only [exchange, if_pos nested.reaches, serve, ask, split, bind_some, resume, existed, recorded.slot, found,
    rdUpdate_stale sound parent stale]
  rfl

end

/-- The nest grows by the parent. -/
theorem Nested.descend (nested : Nested w (e :: stack)) (recorded : Recorded w e rd) (inner : rd.pEvtid ≠ 0)
    (above : Recorded w rd.pEvtid prd) (parent : w.client.table.get rd.pEvtid = some prd) :
    Nested (World.touch w rd.pEvtid prd) (rd.pEvtid :: e :: stack) where
  reaches := nested.reaches
  sorted := by
    have lt := (recorded.parent inner).1
    refine pairwise_cons.mpr ⟨?_, nested.sorted⟩
    intro k member
    rcases mem_cons.mp member with rfl | member
    · exact lt
    · exact lt_trans lt ((pairwise_cons.mp nested.sorted).1 k member)
  current := by
    intro k member
    by_cases same : k = rd.pEvtid
    · subst same
      exact ⟨_, touch_self w prd above.slot, rfl⟩
    · obtain ⟨rd', found, current⟩ := nested.current k ((mem_cons.mp member).resolve_left same)
      obtain ⟨fcnt, found, same⟩ := touch_get above.slot parent found
      exact ⟨_, found, same current⟩

end Exchange

/-! ## The whole re-creation -/

/-- The stub exchanges an invocation for its next action. -/
def Exchanged (a b : World × Action) : Prop :=
  ∃ inv frame, a.2 = .invoke inv frame ∧ exchange plenty a.1 inv frame = some b

/-- Only refreshed records and new events tell the worlds apart. -/
structure Kept (w w' : World) : Prop where
  link : w'.client.link = w.client.link
  spd : w'.client.spd = w.client.spd
  ns : w'.ns = w.ns
  record : ∀ e rd, w.client.table.get e = some rd → ∃ fcnt,
    w'.client.table.get e = some { rd with fcnt := fcnt } ∧ (Current w rd → fcnt = rd.fcnt)

theorem kept_server (w : World) (server : Groups.State) : Kept w { w with server } :=
  ⟨rfl, rfl, rfl, fun _ rd found => ⟨rd.fcnt, found, fun _ => rfl⟩⟩

theorem Kept.trans {w'' : World} (h : Kept w w') (k : Kept w' w'') : Kept w w'' where
  link := k.link.trans h.link
  spd := k.spd.trans h.spd
  ns := k.ns.trans h.ns
  record := by
    intro e rd found
    obtain ⟨fcnt, found, same⟩ := h.record e rd found
    obtain ⟨fcnt', found, same'⟩ := k.record e _ found
    refine ⟨fcnt', found, fun current => ?_⟩
    have current' : Current w' { rd with fcnt } := by
      rw [Current, h.link, same current]
      exact current
    rw [same' current', same current]

/-- A current record is as it was. -/
theorem Kept.current (h : Kept w w') (found : w.client.table.get e = some rd) (current : Current w rd) :
    w'.client.table.get e = some rd ∧ Current w' rd := by
  obtain ⟨fcnt, found, same⟩ := h.record e rd found
  rw [same current] at found
  refine ⟨found, ?_⟩
  rw [Current, h.link]
  exact current

theorem Nested.kept {nest : List Eid} (nested : Nested w nest) (kept : Kept w w') : Nested w' nest where
  reaches := by
    rw [kept.link]
    exact nested.reaches
  sorted := nested.sorted
  current := by
    intro e mem
    obtain ⟨rd, found, current⟩ := nested.current e mem
    exact ⟨rd, kept.current found current⟩

theorem touch_kept {pending : List Eid} (sound : Sound pending w)
    (found : w.client.table.get e = some rd) : Kept w (World.touch w e rd) := by
  refine ⟨rfl, rfl, rfl, ?_⟩
  intro k rd' at_
  obtain ⟨fcnt, at_, same⟩ := touch_get (sound.recorded e rd found).slot found at_
  exact ⟨fcnt, at_, fun current => (same current).trans current.symm⟩

/-- The innermost event of a nest is re-created, and the stub goes on with the rest of it. -/
structure Recreated (w : World) (e : Eid) (stack : List Eid) (rd : RecData) (task : Task) (w' : World) :
    Prop where
  kept : Kept w w'
  sound : Sound stack w'
  described : describe w'.server e = some (descRd w.client.spd rd)
  leads : ∀ b, answered w' (returned w'.client true stack task) = some b →
    Relation.ReflTransGen Exchanged (w, .invoke (ask e rd) (.existing e stack task)) b

/-- By induction on the id, as parents have smaller ones. -/
theorem recreates (n : Nat) : ∀ {e : Eid} {stack : List Eid} {w : World} {rd : RecData}, e.toNat = n →
    Sound (e :: stack) w → Nested w (e :: stack) → w.client.table.get e = some rd → ∀ task,
    ∃ w', Recreated w e stack rd task w' := by
  induction n using Nat.strongRecOn with
  | ind n ih =>
    intro e stack w rd size sound nested found task
    have recorded := sound.recorded e rd found
    by_cases known : rd.pEvtid ≠ 0 → ∀ prd, w.client.table.get rd.pEvtid = some prd → Current w prd
    · obtain ⟨server, run, sound', described⟩ := exchange_settles sound nested found task known
      refine ⟨_, kept_server w server, sound', described, fun b next => .single ?_⟩
      exact ⟨_, _, rfl, run.trans next⟩
    simp only [not_forall] at known
    obtain ⟨inner, prd, parent, stale⟩ := known
    have above := sound.recorded _ prd parent
    have lt := (recorded.parent inner).1
    have run := exchange_descends sound nested found task inner parent stale
    have down := touch_kept sound parent
    -- The parent is re-created first.
    have smaller := size ▸ (toNat_lt_toNat recorded.positive).mpr lt
    have deeper := nested.descend recorded inner above parent
    obtain ⟨w2, done⟩ := ih _ smaller rfl (touch_sound sound parent stale) deeper (touch_self w prd above.slot) task
    -- Then the server has it, and the event is asked for again.
    obtain ⟨rd0, at_, current⟩ := nested.current e mem_cons_self
    rw [found] at at_
    cases at_
    have kept := down.trans done.kept
    obtain ⟨found2, -⟩ := kept.current found current
    obtain ⟨prd1, at1, current1⟩ := deeper.current _ mem_cons_self
    obtain ⟨at2, current2⟩ := done.kept.current at1 current1
    have known : rd.pEvtid ≠ 0 → ∀ prd, w2.client.table.get rd.pEvtid = some prd → Current w2 prd := by
      intro _ prd at_
      rw [at2] at at_
      cases at_
      exact current2
    obtain ⟨server, run', sound', described⟩ := exchange_settles done.sound (nested.kept kept) found2 task known
    rw [kept.spd] at described
    refine ⟨_, kept.trans (kept_server w2 server), sound', described, fun b next => ?_⟩
    have asked : answered w2 (returned w2.client true (e :: stack) task) =
        some (w2, .invoke (ask e rd) (.existing e stack task)) := by
      rw [returned, again_eq found2 (done.sound.recorded e rd found2)]
      rfl
    exact .head ⟨_, _, rfl, run⟩ ((done.leads _ asked).tail ⟨_, _, rfl, run'.trans next⟩)

/-! ## `rd_update` -/

/-- A run of the stub that ends is found with enough fuel. -/
theorem drive_of_exchanged {a : World × Action} {v : Int} (leads : Relation.ReflTransGen Exchanged a (w, .ret v)) :
    ∃ fuel, ∀ more, fuel ≤ more → drive plenty more a = some (w, v) := by
  induction leads using Relation.ReflTransGen.head_induction_on with
  | refl =>
    refine ⟨1, ?_⟩
    rintro (_ | more) enough
    · exact absurd enough (by decide)
    · rfl
  | @head a b first _ ih =>
    obtain ⟨inv, frame, at_, run⟩ := first
    obtain ⟨fuel, ends⟩ := ih
    refine ⟨fuel + 1, ?_⟩
    rintro (_ | more) enough
    · exact absurd enough (not_succ_le_zero fuel)
    · obtain ⟨w0, action⟩ := a
      obtain rfl := at_
      rw [drive, run]
      exact ends more (le_of_succ_le_succ enough)

/-- The entry for upcalls ends, and the server has the event then. -/
theorem recover_ends (sound : Sound [] w) (reaches : w.client.link.reaches) (found : w.client.table.get e = some rd) :
    ∃ fuel w', Kept w w' ∧ Sound [] w' ∧ describe w'.server e = some (descRd w.client.spd rd) ∧
      ∀ more, fuel ≤ more → (w.begin (.recover e)).bind (drive plenty more) = some (w', 0) := by
  by_cases current : Current w rd
  · have begin_ : w.begin (.recover e) = some (w, .ret 0) := by
      rw [World.begin, begin, rdUpdate_current sound found current]
      rfl
    obtain ⟨fuel, ends⟩ := drive_of_exchanged .refl
    refine ⟨fuel, w, ⟨rfl, rfl, rfl, fun _ rd found => ⟨rd.fcnt, found, fun _ => rfl⟩⟩, sound,
      sound.known e rd found reaches current not_mem_nil, fun more enough => ?_⟩
    rw [begin_]
    exact ends more enough
  · have recorded := sound.recorded e rd found
    have begin_ : w.begin (.recover e) =
        some (World.touch w e rd, .invoke (ask e rd) (.existing e [] (.recover e))) := by
      rw [World.begin, begin, rdUpdate_stale sound found current]
      rfl
    have touched := touch_sound sound found current
    obtain ⟨w', done⟩ := recreates _ rfl touched (nested_touch recorded reaches) (touch_self w rd recorded.slot)
      (.recover e)
    obtain ⟨fuel, ends⟩ := drive_of_exchanged (done.leads (w', .ret 0) rfl)
    refine ⟨fuel, w', (touch_kept sound found).trans done.kept, done.sound, done.described, fun more enough => ?_⟩
    rw [begin_]
    exact ends more enough

end SuperGlue.Guarantees.EventReplay
