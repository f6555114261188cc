import SuperGlue.Source.Event.Stub

/-!
# Calls of the event stub without faults

When no fault has occurred, every record carries the current fault count. A call is transparent for a
server if the stub asks it exactly once, for the operation with the caller's arguments, and returns what
it answers. The server is any function of the invocations it has seen.
-/
namespace SuperGlue.Guarantees.EventTransparency
open Int List Option Lib.FiniteMap Source.Stub.Cstub Source.Event.Stub
open Source.Event.Groups (cvectMaxId slot)

/-- The answer to the last of the invocations made so far. -/
abbrev Server := List Invocation → Int

/-- Run the stub against a server that does not fail: the invocations made and the value returned. -/
def run (server : Server) : Nat → List Invocation → Client × Action → Option (List Invocation × Int)
  | 0, _, _ => none
  | _ + 1, log, (_, .ret v) => some (log, v)
  | fuel + 1, log, (c, .invoke inv frame) =>
    (resume c frame (.value (server (log ++ [inv])))).bind (run server fuel (log ++ [inv]))

def Transparent (server : Server) (c : Client) (op : Op) : Prop :=
  ∃ fuel, (begin c (.op op)).bind (run server fuel []) = some ([.op op], server [.op op])

/-- No fault has occurred. -/
def FaultFree (c : Client) : Prop := c.table.All fun _ rd => rd.fcnt = c.link.globalFaultCnt

/-- When the stub is transparent. A parent is the root or tracked; the id of a new event is one that the
stub can track. -/
def Plain (c : Client) (reply : Int) : Op → Prop
  | .split _ parent _ =>
    (parent = 0 ∨ 0 < parent ∧ (c.table.get (slot parent)).isSome) ∧
      0 ≤ reply ∧ reply < cvectMaxId ∧ c.table.get reply = none
  | .wait _ _ => reply ≠ einval
  | .trigger _ _ => reply ≠ einval
  | .free _ _ => False

/-! ## No record becomes stale without a fault -/

variable {c c' : Client} {action : Action} {evt : Eid} {stack : List Eid} {op : Op} {v : Int}
  {frame : Frame} {task : Task} {found : Bool}

theorem returned_same (returns : returned c found stack task = some (c', action)) : c' = c := by
  cases stack with
  | cons =>
    obtain ⟨rd, -, same⟩ := map_eq_some_iff.mp returns
    exact (Prod.mk.inj same).1.symm
  | nil =>
    rcases task with (_ | _ | _ | _) | _
    case recover =>
      obtain ⟨-, same⟩ := ite_none_right_eq_some.mp returns
      exact (Prod.mk.inj (some.inj same)).1.symm
    all_goals exact (Prod.mk.inj (some.inj returns)).1.symm

theorem rdUpdate_same (h : FaultFree c) (updates : rdUpdate c evt stack task = some (c', action)) : c' = c := by
  unfold rdUpdate at updates
  split at updates
  · exact returned_same updates
  split at updates
  · contradiction
  split at updates
  · exact (Prod.mk.inj (some.inj updates)).1.symm
  next rd tracked =>
    rw [if_pos (h _ rd tracked)] at updates
    exact returned_same updates

theorem begin_faultFree (h : FaultFree c) (begins : begin c task = some (c', action)) : FaultFree c' := by
  have same : c' = c := by
    rcases task with (_ | _ | _ | _) | _
    case op.wait | op.trigger => exact (Prod.mk.inj (some.inj begins)).1.symm
    all_goals exact rdUpdate_same h begins
  exact same ▸ h

theorem existed_faultFree (h : FaultFree c) (exists_ : existed c v evt stack task = some (c', action)) :
    FaultFree c' := by
  unfold existed at exists_
  split at exists_
  · obtain ⟨rd, -, updates⟩ := bind_eq_some_iff.mp exists_
    exact rdUpdate_same h updates ▸ h
  split at exists_
  · have erased : FaultFree { c with table := c.table.erase (slot evt) } :=
      fun e rd tracked => h e rd (erase_known tracked).2
    exact returned_same exists_ ▸ erased
  split at exists_
  · contradiction
  · exact returned_same exists_ ▸ h

theorem resume_faultFree (h : FaultFree c) (resumes : resume c frame (.value v) = some (c', action)) :
    FaultFree c' := by
  have redone : ∀ evt op, (if v = einval then rdUpdate c evt [] (.op op) else some (c, .ret v)) = some (c', action) →
      FaultFree c' := by
    intro evt op next
    split at next
    · exact rdUpdate_same h next ▸ h
    · exact (Prod.mk.inj (some.inj next)).1 ▸ h
  rcases frame with (⟨_, parent, grp⟩ | ⟨_, evt⟩ | ⟨_, evt⟩ | _) | _ | _
  case call.split =>
    -- a new record carries the current count
    obtain ⟨c1, tracked, same⟩ := map_eq_some_iff.mp resumes
    obtain ⟨-, new⟩ := ite_none_right_eq_some.mp tracked
    cases same
    cases new
    exact Table.All.set h rfl
  case call.wait | call.trigger => exact redone evt _ resumes
  case call.free => exact (Prod.mk.inj (some.inj resumes)).1 ▸ h
  case existing => exact existed_faultFree h resumes
  case upcall => exact returned_same resumes ▸ h

/-! ## What the stub does next -/

/-- The operation is invoked after its `rd_update`. -/
def Follows (op : Op) : Prop :=
  ∀ c found, proceed c found (.op op) = some (c, .invoke (.op op) (.call op))

variable {server : Server} {log log' : List Invocation} {inv : Invocation}

/-- The invocations made so far stay the first ones. -/
theorem run_extends {fuel : Nat} (ends : run server fuel log (c, action) = some (log', v)) : log <+: log' := by
  induction fuel generalizing log c action with
  | zero => nomatch ends
  | succ fuel ih =>
    cases action with
    | ret =>
      cases ends
      exact prefix_rfl
    | invoke inv =>
      obtain ⟨⟨c', action'⟩, -, rest⟩ := bind_eq_some_iff.mp ends
      exact (prefix_append log [inv]).trans (ih rest)

theorem run_invoke {fuel : Nat}
    (ends : run server fuel log (c, .invoke inv frame) = some (log', v)) : log ++ [inv] <+: log' := by
  cases fuel with
  | zero => nomatch ends
  | succ =>
    obtain ⟨⟨c', action'⟩, -, rest⟩ := bind_eq_some_iff.mp ends
    exact run_extends rest

/-- After one invocation, a transparent call returns at once. -/
theorem transparent_iff (begins : begin c (.op op) = some (c, .invoke (.op op) (.call op))) :
    Transparent server c op ↔ ∃ c', replied c (server [.op op]) op = some (c', .ret (server [.op op])) := by
  constructor
  · rintro ⟨fuel, ends⟩
    rw [begins, bind_some] at ends
    cases fuel with
    | zero => nomatch ends
    | succ fuel =>
      obtain ⟨⟨c', action⟩, resumed, rest⟩ := bind_eq_some_iff.mp ends
      refine ⟨c', ?_⟩
      cases action with
      | invoke =>
        have longer := (run_invoke rest).length_le
        exact absurd longer (Nat.lt_irrefl 1)
      | ret v =>
        cases fuel with
        | zero => nomatch rest
        | succ =>
          have same := (Prod.mk.inj (some.inj rest)).2
          exact same ▸ resumed
  · rintro ⟨c', answers⟩
    refine ⟨2, ?_⟩
    rw [begins]
    change (replied c (server [.op op]) op).bind _ = _
    rw [answers]
    rfl

/-- A call that begins with another invocation than its own is not transparent. -/
theorem not_transparent (begins : begin c (.op op) = some (c', .invoke inv frame)) (other : inv ≠ .op op) :
    ¬ Transparent server c op := by
  rintro ⟨fuel, ends⟩
  rw [begins] at ends
  have first := run_invoke ends
  rw [nil_append, cons_prefix_cons] at first
  exact other first.1

theorem split_transparent_iff (h : FaultFree c) (spdid : SpdId) (parent : Eid) (grp : Int) :
    Transparent server c (.split spdid parent grp) ↔
      Plain c (server [.op (.split spdid parent grp)]) (.split spdid parent grp) := by
  by_cases tracked : parent = 0 ∨ 0 < parent ∧ (c.table.get (slot parent)).isSome
  · have begins : begin c (.op (.split spdid parent grp)) =
        some (c, .invoke (.op (.split spdid parent grp)) (.call (.split spdid parent grp))) := by
      rcases tracked with rfl | ⟨positive, some_⟩
      · rfl
      obtain ⟨rd, found⟩ := isSome_iff_exists.mp some_
      change rdUpdate c parent [] _ = _
      rw [rdUpdate, if_neg (ne_of_gt positive), if_neg (not_lt.mpr (le_of_lt positive)), found]
      dsimp only
      rw [if_pos (h _ rd found)]
      rfl
    rw [transparent_iff begins]
    simp [replied, rdevtAlloc, Plain, tracked]
  · refine iff_of_false ?_ fun plain => tracked plain.1
    rw [not_or] at tracked
    rcases lt_trichotomy parent 0 with negative | zero | positive
    · rintro ⟨fuel, ends⟩
      have aborts : begin c (.op (.split spdid parent grp)) = none := by
        simp [begin, redo, rdUpdate, if_neg tracked.1, if_pos negative]
      rw [aborts] at ends
      contradiction
    · exact absurd zero tracked.1
    · have untracked : c.table.get (slot parent) = none := by
        rw [← not_isSome_iff_eq_none]
        exact fun some_ => tracked.2 ⟨positive, some_⟩
      have upcalls : begin c (.op (.split spdid parent grp)) =
          some (c, .invoke (.upcallCreator c.spd parent) (.upcall [] (.op (.split spdid parent grp)))) := by
        simp [begin, redo, rdUpdate, if_neg tracked.1, if_neg (not_lt.mpr (le_of_lt positive)), untracked]
      exact not_transparent upcalls (by simp)

/-- Such an operation is not over when its `rd_update` is. -/
theorem rdUpdate_not_ret (follows : Follows op) : rdUpdate c evt [] (.op op) ≠ some (c', .ret v) := by
  intro h
  simp only [rdUpdate, returned, follows _ _] at h
  split at h
  · nomatch h
  split at h
  · nomatch h
  split at h
  · nomatch h
  · split at h
    · nomatch h
    · obtain ⟨rd, -, eq⟩ := map_eq_some_iff.mp h
      nomatch eq

/-- A wait or a trigger is redone when it is told that the event is unknown. -/
theorem redone_transparent_iff
    (begins : begin c (.op op) = some (c, .invoke (.op op) (.call op))) (follows : Follows op)
    (answered : ∀ v, replied c v op = if v = einval then rdUpdate c evt [] (.op op) else some (c, .ret v)) :
    Transparent server c op ↔ server [.op op] ≠ einval := by
  rw [transparent_iff begins, answered]
  split
  next same => exact iff_of_false (fun ⟨_, h⟩ => rdUpdate_not_ret follows h) (fun ne => ne same)
  next ne => exact iff_of_true ⟨c, rfl⟩ ne

/-- `evt_free` returns 0 or stops before its own invocation. -/
theorem free_not_transparent (h : FaultFree c) (spdid : SpdId)
    (evt : Eid) : ¬ Transparent server c (.free spdid evt) := by
  have returns : begin c (.op (.free spdid evt)) = some (c, .ret 0) ∨
      begin c (.op (.free spdid evt)) = none ∨
      ∃ frame, begin c (.op (.free spdid evt)) = some (c, .invoke (.upcallCreator c.spd evt) frame) := by
    simp only [begin, redo, rdUpdate]
    split
    · exact .inl rfl
    · split
      · exact .inr (.inl rfl)
      · split
        · exact .inr (.inr ⟨_, rfl⟩)
        next found => exact .inl (if_pos (h _ _ found))
  rcases returns with begins | begins | ⟨frame, begins⟩
  · rintro ⟨fuel, ends⟩
    rw [begins] at ends
    cases fuel with
    | zero => nomatch ends
    | succ => nomatch (Prod.mk.inj (some.inj ends)).1
  · rintro ⟨fuel, ends⟩
    rw [begins] at ends
    nomatch ends
  · exact not_transparent begins nofun

/-- Without faults, the stub is transparent for exactly the plain calls, whatever the server. -/
theorem stub_transparent_iff (server : Server) (c : Client) (h : FaultFree c) (op : Op) :
    Transparent server c op ↔ Plain c (server [.op op]) op := by
  cases op with
  | split spdid parent grp => exact split_transparent_iff h spdid parent grp
  | wait spdid evt | trigger spdid evt => exact redone_transparent_iff rfl (fun _ _ => rfl) (fun _ => rfl)
  | free spdid evt => exact iff_of_false (free_not_transparent h spdid evt) id

/-- A client after it has split the group 1 and event 2 in it. -/
def tracking : Client := ⟨7, (Table.empty.set 1 ⟨7, 0, 1, 0⟩).set 2 ⟨7, 1, 0, 0⟩, Link.init⟩

theorem tracking_faultFree : FaultFree tracking :=
  Table.All.set (Table.All.set nofun rfl) rfl

/-- A further split in the group, and a wait for it. -/
theorem group_calls_transparent :
    Transparent (fun _ => 3) tracking (.split 7 1 0) ∧ Transparent (fun _ => 2) tracking (.wait 7 1) := by
  constructor
  · exact (stub_transparent_iff _ _ tracking_faultFree _).mpr
      ⟨.inr ⟨by decide, by decide⟩, by decide, by decide, by decide⟩
  · exact (stub_transparent_iff _ _ tracking_faultFree _).mpr (show (2 : Int) ≠ einval by decide)

/-- A server that no longer knows group 1 is asked again and again by one wait, and it is not asked at
all by a free. -/
theorem unknown_wait_repeated : FaultFree tracking ∧
      (∀ fuel, (begin tracking (.op (.wait 7 1))).bind (run (fun _ => einval) fuel []) = none) ∧
      begin tracking (.op (.free 7 1)) = some (tracking, .ret 0) := by
  have forever : ∀ fuel log,
      run (fun _ => einval) fuel log (tracking, .invoke (.op (.wait 7 1)) (.call (.wait 7 1))) = none := by
    intro fuel
    induction fuel with
    | zero => exact fun _ => rfl
    | succ fuel ih =>
      intro log
      exact ih _
  exact ⟨tracking_faultFree, fun fuel => forever fuel [], rfl⟩

end SuperGlue.Guarantees.EventTransparency
