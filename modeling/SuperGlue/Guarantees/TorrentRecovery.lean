import SuperGlue.Guarantees.TorrentReplay

/-!
# Torrents over whole histories

The client's calls, the faults of the file system and the calls of other clients in any order. In every
history in which a torrent is split off another only while the server knows that one by its client id,
and a torrent is given up only after those split off it, each use of a live torrent ends and finds it
bound to a server torrent of the path it was split for.
-/
namespace SuperGlue.Guarantees.TorrentRecovery
open Function Option Lib.Transition Lib.Slots Source.Stub.Cstub Source.Ramfs.Stub TorrentReplay

/-- The client with the origins of its torrents. -/
structure Observed where
  client : Client
  born : Births

/-- The server torrent that an accepted split makes. -/
def splitTor (s : State) (parent : Td) (param : Param) (tflags : Nat) : Tor :=
  ((s.server.get (s.serverTd parent)).getD rootTor).child param tflags

/-- A split that is served gives the new torrent its origin. -/
def bornNext (o : Observed) : Label → Births
  | .serve true =>
    match o.client.pc with
    | .ready (.tsplit parent param tflags) =>
      let s := o.client.st
      if s.link.reaches then
        update o.born s.table.slot ⟨splitTor s parent param tflags, parent⟩
      else o.born
    | _ => o.born
  | _ => o.born

def observe (o : Observed) (label : Label) : Option Observed :=
  (step o.client label).map fun client => ⟨client, bornNext o label⟩

def observedSystem : System Observed Label := ⟨⟨⟨init, .idle⟩, fun _ => ⟨rootTor, tdRoot⟩⟩, observe⟩

/-- A call that the stub can replay later: a split has a parameter, and the server knows the parent by
its client id; a torrent that is given up has no torrents split off it. -/
def Replayable (s : State) : Call → Prop
  | .tsplit parent param _ => param ≠ [] ∧ s.serverTd parent = parent
  | .transfer _ => True
  | .tmerge td => s.table.All fun _ rd => rd.pTid ≠ td
  | .trelease td => s.table.All fun _ rd => rd.pTid ≠ td

/-- What a step of a careful history meets: splits start at the root or at a live torrent, the server
accepts the splits that are replayed, calls that reach it are replayable, and `global_fault_cnt` does not
wrap. -/
def Careful (o : Observed) : Label → Prop
  | .call (.tsplit parent _ _) =>
    parent = tdRoot ∨ 2 ≤ parent ∧ (o.client.st.table.get parent).isSome
  | .reach _ plan =>
    (∀ a ∈ plan, a ≠ Answer.refuse) ∧ o.client.st.link.globalFaultCnt + plan.length + 1 < counterModulus
  | .serve _ =>
    o.client.st.link.globalFaultCnt + 1 < counterModulus ∧
      match o.client.pc with
      | .ready call => o.client.st.link.reaches → Replayable o.client.st call
      | _ => True
  | _ => True

instance (s : State) (call : Call) : Decidable (Replayable s call) := by
  unfold Replayable
  split <;> infer_instance

instance : DecidableRel Careful := by
  intro o label
  unfold Careful
  split
  · infer_instance
  · infer_instance
  · split <;> infer_instance
  · infer_instance

/-! ## The invariant -/

def nonePending : Td → Prop := fun _ => False

structure Regular (o : Observed) : Prop where
  sound : Sound o.born nonePending o.client.st
  live : ∀ call, o.client.pc = .redo call ∨ o.client.pc = .ready call → Live o.client.st call.td
  ready : ∀ call, o.client.pc = .ready call → o.client.st.link.reaches →
    Bound o.born o.client.st call.td ∧ (2 ≤ call.td → Apart nonePending o.client.st call.td)

variable {born : Births} {s : State}

/-- Without a call under way only the records count. -/
theorem regular_idle (sound : Sound born nonePending s) : Regular ⟨⟨s, .idle⟩, born⟩ where
  sound := sound
  live := fun _ h => h.elim nofun nofun
  ready := nofun

variable {call : Call}

theorem regular_redo (sound : Sound born nonePending s) (live : Live s call.td) : Regular ⟨⟨s, .redo call⟩, born⟩ where
  sound := sound
  live := by
    rintro other (same | same)
    · cases same
      exact live
    · nomatch same
  ready := nofun

theorem init_regular : Regular observedSystem.init := by
  apply regular_idle
  exact sound_of_stale (Nat.le_refl _) rfl nofun nofun

variable {o o' : Observed}

theorem call_regular (h : Regular o) (careful : Careful o (.call call))
    (run : observe o (.call call) = some o') : Regular o' := by
  obtain ⟨client, taken, rfl⟩ := map_eq_some_iff.mp run
  simp only [step, ite_none_right_eq_some] at taken
  obtain ⟨⟨-, admitted⟩, same⟩ := taken
  cases same
  apply regular_redo h.sound
  have tracked : (o.client.st.table.get call.td).isSome → Live o.client.st call.td := by
    intro some_
    obtain ⟨rd, found⟩ := isSome_iff_exists.mp some_
    exact .inr ⟨(h.sound.descends _ rd found).id, some_⟩
  cases call with
  | tsplit => exact careful
  | transfer td | tmerge td | trelease td => exact tracked admitted

theorem reach_regular {fuel : Nat} {plan : Plan} (h : Regular o)
    (careful : Careful o (.reach fuel plan)) (run : observe o (.reach fuel plan) = some o') : Regular o' := by
  obtain ⟨client, taken, rfl⟩ := map_eq_some_iff.mp run
  simp only [step] at taken
  split at taken
  next call at_ =>
    obtain ⟨⟨s', plan'⟩, reached, rfl⟩ := map_eq_some_iff.mp taken
    have live := h.live call (.inl at_)
    have small : o.client.st.link.globalFaultCnt + cost o.client.st plan < counterModulus := by
      have := careful.2
      unfold cost
      split <;> omega
    have enough := Nat.le_max_right fuel (2 * depth o.born call.td + cost o.client.st plan + 1)
    obtain ⟨s'', plan'', run', outcome, settles⟩ := reach_settles h.sound live careful.1 small enough
    -- More fuel would not have changed the result.
    rw [reach_more (Nat.le_max_left _ _) reached] at run'
    cases run'
    refine ⟨outcome.sound, ?_, ?_⟩
    · rintro other (same | same)
      · nomatch same
      · cases same
        exact (live_of_shape outcome.kept.shape).mpr live
    · intro other same _
      cases same
      exact ⟨settles.bound, settles.apart⟩
  · contradiction

/-! ## A split that is served -/

section Split

variable {born : Births} {s : State} {parent : Td} {param : Param} {tflags : Nat} {t : Tor}

/-- The state after `splitServed`. -/
def splitState (s : State) (parent : Td) (param : Param) (tflags : Nat) (t : Tor) : State :=
  { s with
    server := s.server.add (t.child param tflags)
    table := s.table.add ⟨parent, s.server.slot, param, tflags, s.link.globalFaultCnt⟩ }

def splitBorn (born : Births) (s : State) (parent : Td) (param : Param) (tflags : Nat) (t : Tor) : Births :=
  update born s.table.slot ⟨t.child param tflags, parent⟩

variable {td : Td}

variable (live : Live s td)
include live

theorem live_ne_slot : td ≠ s.table.slot := by
  rcases live with root | ⟨-, some_⟩
  · intro same
    have := s.table.base_le_slot
    rw [← same, root] at this
    exact absurd this (by decide)
  · obtain ⟨rd, found⟩ := isSome_iff_exists.mp some_
    exact SlotMap.slot_ne found

theorem splitBorn_live : splitBorn born s parent param tflags t td = born td :=
  update_of_ne (live_ne_slot live) _ born

theorem torOf_live : torOf (splitBorn born s parent param tflags t) td = torOf born td := by
  rw [torOf, torOf, splitBorn_live live]

theorem split_live : Live (splitState s parent param tflags t) td := by
  refine live.imp_right fun ⟨id, some_⟩ => ⟨id, ?_⟩
  obtain ⟨rd, found⟩ := isSome_iff_exists.mp some_
  exact isSome_iff_exists.mpr ⟨rd, SlotMap.get_add_of_some found _⟩

omit live

variable {rd : RecData}

/-- A record after the split: the new one or an old one. -/
theorem split_found (found : (splitState s parent param tflags t).table.get td = some rd) :
    (td = s.table.slot ∧ rd = ⟨parent, s.server.slot, param, tflags, s.link.globalFaultCnt⟩) ∨
      s.table.get td = some rd := by
  rw [splitState, SlotMap.get_add] at found
  split at found
  next same => exact .inl ⟨same, (some.inj found).symm⟩
  · exact .inr found

theorem tracked_live (sound : Sound born nonePending s) (found : s.table.get td = some rd) : Live s td :=
  .inr ⟨(sound.descends td rd found).id, isSome_iff_exists.mpr ⟨rd, found⟩⟩

theorem split_current (current : Current (splitState s parent param tflags t) td rd) :
    td = s.table.slot ∧ rd.sTid = s.server.slot ∨ Current s td rd := by
  rcases split_found current.1 with ⟨same, rfl⟩ | old
  · exact .inl ⟨same, rfl⟩
  · exact .inr ⟨old, current.2⟩

theorem split_sound (sound : Sound born nonePending s) (reaches : s.link.reaches) (live : Live s parent)
    (bound : torOf born parent = t) (given : param ≠ []) :
    Sound (splitBorn born s parent param tflags t) nonePending (splitState s parent param tflags t) := by
  have held : ∀ td rd, Current s td rd → s.server.get rd.sTid = some (born td).tor :=
    fun td rd current => sound.bound reaches td rd current id
  refine ⟨sound.lag, SlotMap.get_add_of_some sound.root _, ?_, ?_, ?_, ?_⟩
  · intro td rd found
    rcases split_found found with ⟨rfl, rfl⟩ | old
    · have self : splitBorn born s parent param tflags t s.table.slot = ⟨t.child param tflags, parent⟩ :=
        update_self _ _ born
      refine ⟨s.table.base_le_slot, given, by rw [self], split_live live, ?_⟩
      rw [self, torOf_live live, bound]
    · have d := sound.descends td rd old
      have same : splitBorn born s parent param tflags t td = born td := splitBorn_live (tracked_live sound old)
      exact ⟨d.id, d.param, by rw [same]; exact d.parent, split_live d.live,
        by rw [same, torOf_live d.live]; exact d.tor⟩
  · intro td rd found
    rcases split_found found with ⟨-, rfl⟩ | old
    · exact Nat.le_refl _
    · exact sound.counted td rd old
  · intro _ td rd current _
    rcases split_current current with ⟨rfl, sTid⟩ | old
    · rw [sTid, splitState, SlotMap.get_add, if_pos rfl, splitBorn, update_self]
    · rw [splitBorn_live (tracked_live sound old.1)]
      exact SlotMap.get_add_of_some (held td rd old) _
  · intro _ a rd current _ b rd' current' _ same
    rcases split_current current with ⟨atA, sTid⟩ | old <;> rcases split_current current' with ⟨atB, sTid'⟩ | old'
    · rw [atA, atB]
    · exact absurd (same.symm.trans sTid) (SlotMap.slot_ne (held b rd' old'))
    · exact absurd (same.trans sTid') (SlotMap.slot_ne (held a rd old))
    · exact sound.apart reaches a rd old id b rd' old' id same

end Split

/-! ## A torrent that is given up -/

section Free

variable {born : Births} {s : State} {td : Td} {rd : RecData}

def freedState (s : State) (td : Td) : State :=
  { s with server := s.server.del (s.serverTd td), table := s.table.del td }

theorem freed_found (id : 2 ≤ td) {other : Td} {rd' : RecData}
    (found : (freedState s td).table.get other = some rd') : other ≠ td ∧ s.table.get other = some rd' := by
  rw [freedState, SlotMap.get_del _ id] at found
  split at found
  · nomatch found
  next ne => exact ⟨ne, found⟩

theorem free_sound (sound : Sound born nonePending s) (reaches : s.link.reaches)
    (id : 2 ≤ td) (apart : Apart nonePending s td) (childless : s.table.All fun _ rd => rd.pTid ≠ td) :
    Sound born nonePending (freedState s td) := by
  refine ⟨sound.lag, ?_, ?_, ?_, ?_, ?_⟩
  · exact (s.server.get_del_reserved (s.serverTd td) (by decide : tdRoot < 2)).trans sound.root
  · intro other rd' found
    obtain ⟨-, old⟩ := freed_found id found
    have d := sound.descends other rd' old
    refine ⟨d.id, d.param, d.parent, d.live.imp_right fun ⟨id, some_⟩ => ⟨id, ?_⟩, d.tor⟩
    rw [freedState, SlotMap.get_del_of_ne _ (childless other rd' old)]
    exact some_
  · intro other rd' found
    exact sound.counted other rd' (freed_found id found).2
  · intro _ other rd' current _
    obtain ⟨ne, old⟩ := freed_found id current.1
    rw [freedState, SlotMap.get_del_of_ne _ (apart other rd' ne ⟨old, current.2⟩ (fun h => h))]
    exact sound.bound reaches other rd' ⟨old, current.2⟩ (fun h => h)
  · intro _ a rd1 current _ b rd2 current' _ same
    exact sound.apart reaches a rd1 ⟨(freed_found id current.1).2, current.2⟩ (fun h => h) b rd2
      ⟨(freed_found id current'.1).2, current'.2⟩ (fun h => h) same

end Free

/-! ## Steps and runs -/

variable {s' : State}

/-- The stub sees the fault at the invocation. -/
theorem fault_regular (sound : Sound born nonePending s) (live : Live s call.td) (closed : ¬ s.link.reaches)
    (small : s.link.globalFaultCnt + 1 < counterModulus) (run : s.faultUpdate = some s') :
    Regular ⟨⟨s', .redo call⟩, born⟩ := by
  rw [faultUpdate_eq (Link.failed sound.lag closed) small] at run
  cases run
  exact regular_redo (sound.seen rfl rfl sound.root) live

theorem freed_regular {td : Td} (sound : Sound born nonePending s) (reaches : s.link.reaches)
    (apart : 2 ≤ td → Apart nonePending s td) (childless : s.table.All fun _ rd => rd.pTid ≠ td)
    (run : freeServed s td = some s') : Regular ⟨⟨s', .idle⟩, born⟩ := by
  obtain ⟨rd, found⟩ : ∃ rd, s.table.get td = some rd := by
    cases found : s.table.get td with
    | none => simp [freeServed, mapRdDelete, found] at run
    | some rd => exact ⟨rd, rfl⟩
  have id := (sound.descends td rd found).id
  simp only [freeServed, mapRdDelete, found, if_neg (sound.descends td rd found).param] at run
  cases run
  exact regular_idle (free_sound sound reaches id (apart id) childless)

section
variable (h : Regular o)
include h

theorem split_regular {parent : Td} {param : Param} {tflags : Nat}
    (at_ : o.client.pc = .ready (.tsplit parent param tflags))
    (reaches : o.client.st.link.reaches) (replayable : Replayable o.client.st (.tsplit parent param tflags))
    (run : (splitServed o.client.st (o.client.st.serverTd parent) param tflags).map Prod.fst = some s') :
    Regular ⟨⟨s', .idle⟩, bornNext o (.serve true)⟩ := by
  have bound : o.client.st.server.get (o.client.st.serverTd parent) = some (torOf o.born parent) :=
    (h.ready _ at_ reaches).1
  have born : bornNext o (.serve true) = splitBorn o.born o.client.st parent param tflags (torOf o.born parent) := by
    simp [bornNext, at_, if_pos reaches, splitTor, bound, splitBorn]
  rw [splitServed, bound, replayable.2] at run
  cases run
  rw [born]
  exact regular_idle (split_sound h.sound reaches (h.live _ (.inr at_)) rfl replayable.1)

theorem serve_regular {accept : Bool}
    (careful : Careful o (.serve accept)) (run : observe o (.serve accept) = some o') : Regular o' := by
  obtain ⟨client, taken, rfl⟩ := map_eq_some_iff.mp run
  simp only [step] at taken
  split at taken
  next call at_ =>
    have live := h.live call (.inr at_)
    obtain ⟨small, replayable⟩ := careful
    simp only [at_] at replayable
    split at taken
    next reaches =>
      obtain ⟨s', served, rfl⟩ := map_eq_some_iff.mp taken
      have ready := h.ready call at_ reaches
      have replayable := replayable reaches
      have born (other : ∀ p a f, call ≠ .tsplit p a f) : bornNext o (.serve accept) = o.born := by
        cases accept <;> cases call <;> simp_all [bornNext]
      cases call with
      | tsplit =>
        simp only [serve, ite_none_right_eq_some] at served
        obtain ⟨rfl, served⟩ := served
        exact split_regular h at_ reaches replayable served
      | transfer =>
        cases served
        rw [born (by simp)]
        exact regular_idle h.sound
      | tmerge =>
        rw [born (by simp)]
        simp only [serve] at served
        split at served
        · exact freed_regular h.sound reaches ready.2 replayable served
        · cases served
          exact regular_idle h.sound
      | trelease =>
        rw [born (by simp)]
        exact freed_regular h.sound reaches ready.2 replayable served
    next closed =>
      obtain ⟨s', update, rfl⟩ := map_eq_some_iff.mp taken
      have born : bornNext o (.serve accept) = o.born := by
        unfold bornNext
        split <;> simp [at_, closed]
        split <;> rfl
      rw [born]
      exact fault_regular h.sound live closed small update
  · contradiction

/-- A server that gains torrents, or loses those of others, keeps the records right. -/
theorem server_regular {server : SlotMap 2 Tor} (root : server.get tdRoot = some rootTor)
    (own : ∀ i t, t.own → o.client.st.server.get i = some t → server.get i = some t) :
    Regular ⟨{ o.client with st := { o.client.st with server } }, o.born⟩ := by
  have mine : ∀ td rd, o.client.st.table.get td = some rd → (o.born td).tor.own := by
    intro td rd found
    rw [(h.sound.descends td rd found).tor]
    rfl
  refine ⟨⟨h.sound.lag, root, ?_, h.sound.counted, ?_, h.sound.apart⟩, h.live, ?_⟩
  · exact descends_of_shape (s := o.client.st) rfl h.sound.descends
  · intro reaches td rd current settled
    exact own _ _ (mine td rd current.1) (h.sound.bound reaches td rd current settled)
  intro call at_ reaches
  obtain ⟨bound, apart⟩ := h.ready call at_ reaches
  refine ⟨?_, apart⟩
  rcases h.live call (.inr at_) with isRoot | ⟨id, some_⟩
  · rw [isRoot]
    exact root
  · obtain ⟨rd, found⟩ := isSome_iff_exists.mp some_
    refine own _ _ ?_ bound
    rw [torOf_of id]
    exact mine _ rd found

theorem reboot_regular : Regular ⟨{ o.client with st := o.client.st.reboot }, o.born⟩ := by
  have closed : o.client.st.reboot.link.reaches ≠ true := by
    have lag := h.sound.lag
    simp only [State.reboot, Link.trigger, Link.reaches, ne_eq, beq_iff_eq]
    omega
  refine ⟨⟨Nat.le_succ_of_le h.sound.lag, rfl, ?_, h.sound.counted, ?_, ?_⟩, h.live, ?_⟩
  · exact descends_of_shape (s := o.client.st) rfl h.sound.descends
  all_goals
    intros
    contradiction

theorem step_regular {label : Label} (careful : Careful o label) (run : observe o label = some o') : Regular o' := by
  cases label with
  | call => exact call_regular h careful run
  | reach => exact reach_regular h careful run
  | serve => exact serve_regular h careful run
  | reboot =>
    cases run
    exact reboot_regular h
  | otherSplit =>
    cases run
    apply server_regular h (SlotMap.get_add_of_some h.sound.root _)
    exact fun i t _ found => SlotMap.get_add_of_some found _
  | otherRelease td =>
    obtain ⟨client, taken, rfl⟩ := map_eq_some_iff.mp run
    simp only [step, ite_none_right_eq_some] at taken
    obtain ⟨⟨other, -⟩, same⟩ := taken
    cases same
    apply server_regular h
    · exact (o.client.st.server.get_del_reserved td (by decide : tdRoot < 2)).trans h.sound.root
    intro i t own found
    rw [SlotMap.get_del_of_ne]
    · exact found
    · intro same
      rw [← same, found] at other
      simp [own] at other

end

theorem regular_reachable (reached : Reachable observedSystem Careful o) : Regular o :=
  reached.invariant Regular init_regular fun _ _ _ h careful run => step_regular h careful run

/-- The client splits a torrent. -/
def splitting (parent : Td) (param : Param) : List Label :=
  [.call (.tsplit parent param 7), .reach 3 [], .serve true]

end SuperGlue.Guarantees.TorrentRecovery
