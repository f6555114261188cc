import SuperGlue.Guarantees.EventReplay
import SuperGlue.Lib.Transition

/-!
# Events over whole histories

The calls of one client, the faults of the event component and the calls of other clients in any order.
In every history in which a group is freed only after the events in it, and in which `rd_update` neither
meets a fault that the stub has not seen nor runs out of memory, `rd_update` of each live event ends, and
the server then has it with the kind and the group it was split with.
-/
namespace SuperGlue.Guarantees.EventRecovery
open Int Nat List Function Option Lib.Transition Lib.FiniteMap Lib.Slots Source.Stub.Cstub Source.Event.Stub Source.Event.Service
open Source.Event (Groups.State)
open Source.Event.Groups (cvectMaxId slot)
open EventForest EventReplay

/-- The arguments that an event was split with. -/
structure Origin where
  grp : Int
  parent : Eid
  deriving DecidableEq, Repr

/-- A session with the origins of its events and the events that were freed. -/
structure Observed where
  session : Session
  born : Table Eid Origin
  freed : List Eid

variable (o : Observed)

/-- A split that gets to the server, if it comes back, has the next id of the name server. -/
def bornNext : Label → Table Eid Origin
  | .go _ =>
    match o.session.pc with
    | some (.op (.split _ parent grp), _) =>
      if o.session.world.client.link.reaches then
        o.born.set (o.session.world.ns.slot : Int) ⟨grp, parent⟩
      else o.born
    | _ => o.born
  | _ => o.born

def freedNext : Label → List Eid
  | .call (.op (.free _ evt)) => evt :: o.freed
  | _ => o.freed

def observe (label : Label) : Option Observed :=
  (o.session.step label).map fun session => ⟨session, bornNext o label, freedNext o label⟩

def history (spd : SpdId) : System Observed Label := ⟨⟨⟨boot spd, none⟩, .empty, []⟩, observe⟩

/-- What the server should know about a live event: a freed group counts as no group. -/
def Observed.expected (b : Origin) : Desc :=
  ⟨typeOf (b.grp != 0), if b.parent = 0 ∨ b.parent ∈ o.freed then none else some b.parent, o.session.world.client.spd⟩

def Tracked (w : World) (e : Eid) : Prop := (w.client.table.get e).isSome

instance (w : World) (e : Eid) : Decidable (Tracked w e) := inferInstanceAs (Decidable (_ = true))

/-- `rd_update` of the event would do nothing or reach the server. -/
def Fresh (w : World) (e : Eid) : Prop :=
  w.client.link.reaches ∨ ∀ rd ∈ w.client.table.get e, rd.fcnt = w.client.link.globalFaultCnt

instance (w : World) (e : Eid) : Decidable (Fresh w e) := inferInstanceAs (Decidable (_ ∨ _))

/-- The stub is inside `rd_update`. -/
def Updating (s : Session) : Prop :=
  match s.pc with
  | some (_, .existing _ _ _) => True
  | some (_, .upcall _ _) => True
  | _ => False

instance (s : Session) : Decidable (Updating s) := by
  unfold Updating
  split <;> infer_instance

/-- What a step of a careful history meets. Events are split for the client itself, below the root or
one of its live events; a freed event has no live one in its group. -/
def Careful : Label → Prop
  | .call (.op (.split spdid parent _)) =>
    spdid = o.session.world.client.spd ∧
      (parent = 0 ∨ Tracked o.session.world parent ∧ parent ∉ o.freed ∧ Fresh o.session.world parent)
  | .call (.op (.wait _ evt)) => Tracked o.session.world evt
  | .call (.op (.trigger _ evt)) => Tracked o.session.world evt
  | .call (.op (.free _ evt)) =>
    Tracked o.session.world evt ∧ Fresh o.session.world evt ∧ o.born.All fun e b => e ∉ o.freed → b.parent ≠ evt
  | .call (.recover evt) => Tracked o.session.world evt ∧ Fresh o.session.world evt
  | .go memory =>
    o.session.world.client.link.globalFaultCnt + 1 < counterModulus ∧ memory.page = true ∧
      (Updating o.session → memory.slab = true)
  | .reboot _ => ¬ Updating o.session
  | .other _ _ _ _ _ => True

instance : DecidableRel Careful := by
  intro o label
  unfold Careful
  split <;> infer_instance

/-! ## Changes that do not concern the records -/

section Frame

variable {pending : List Eid} {w w' : World} {rd : RecData} {server : Groups.State} {memory : Memory} {e : Eid}
  {ns : SlotMap 1 SpdId}

theorem Sound.frame (sound : Sound pending w) (named : Named server) (unfreed : ns.freed = [])
    (owner : ∀ n spd, w.ns.get n = some spd → ns.get n = some spd)
    (same : ∀ e rd, w.client.table.get e = some rd → describe server e = describe w.server e) :
    Sound pending ⟨w.client, server, ns⟩ := by
  refine ⟨named, sound.lag, unfreed, ?_, ?_, ?_⟩
  · intro e rd found
    have old := sound.recorded e rd found
    exact { old with owner := owner _ _ old.owner }
  · intro e rd found reaches current outside
    exact (same e rd found).trans (sound.known e rd found reaches current outside)
  · intro e rd found absent
    exact (same e rd found).trans (sound.unknown e rd found absent)

theorem unfreed_add (unfreed : ns.freed = []) (spd : SpdId) : (ns.add spd).freed = [] := by
  change ns.freed.tail = []
  rw [unfreed]
  rfl

/-- An id of a tracked event is not the next one of the name server. -/
theorem tracked_ne_slot (sound : Sound pending w) (found : w.client.table.get e = some rd) : e ≠ (w.ns.slot : Int) := by
  intro same
  have owner := (sound.recorded e rd found).owner
  rw [same] at owner
  exact SlotMap.slot_ne owner rfl

/-- Another component's split. -/
theorem other_sound (sound : Sound pending w) {spdid : SpdId} {parent existing : Eid}
    {grp ret : Int} (other : spdid ≠ w.client.spd) (theirs : existing = 0 ∨ w.ns.get existing.toNat = some spdid)
    (run : splitServed w memory spdid parent grp existing = some (w', ret)) : Sound pending w' := by
  obtain ⟨named, client, effect⟩ := splitServed_effect sound.named run
  obtain ⟨_, server, ns⟩ := w'
  cases client
  obtain ⟨-, described, rfl⟩ | ⟨-, granted, -, -, described⟩ := effect
  · exact Sound.frame sound named sound.unfreed (fun _ _ => id) fun e _ _ => congrFun described e
  have kept : ∀ e, e ≠ ret → describe server e = describe w.server e := by
    intro e ne
    rw [described]
    split
    · exact update_of_ne ne _ _
    · rfl
  by_cases fresh : existing = 0
  · obtain ⟨rfl, rfl⟩ := granted.new fresh
    refine Sound.frame sound named (unfreed_add sound.unfreed spdid) (fun _ _ found => SlotMap.get_add_of_some found spdid) ?_
    intro e rd found
    exact kept e (tracked_ne_slot sound found)
  obtain ⟨rfl, -, rfl⟩ := granted.old fresh
  refine Sound.frame sound named sound.unfreed (fun _ _ => id) ?_
  intro e rd found
  have ne : e ≠ ret := by
    rintro rfl
    have owner := (sound.recorded e rd found).owner
    rw [theirs.resolve_left fresh] at owner
    exact other (some.inj owner)
  exact kept e ne

end Frame

/-! ## Faults -/

section Fault

variable {w : World}

theorem reboot_sound (sound : Sound [] w) : Sound [] w.reboot := by
  have closed : ¬ w.reboot.client.link.reaches := by
    intro reaches
    have same : w.client.link.capCnt = w.client.link.faultCnt + 1 := of_decide_eq_true reaches
    have := sound.lag
    omega
  refine ⟨named_init, le_succ_of_le sound.lag, sound.unfreed, ?_, ?_, ?_⟩
  · intro e rd found
    have old := sound.recorded e rd found
    exact { old with }
  · intro e rd found reaches
    exact absurd reaches closed
  · intro e rd found absent
    rfl

/-- The stub sees the fault. -/
def World.update (w : World) (link : Link) : World := { w with client := { w.client with link := link } }

theorem update_sound (sound : Sound [] w) (closed : ¬ w.client.link.reaches)
    (small : w.client.link.globalFaultCnt + 1 < counterModulus) {link : Link}
    (run : w.client.link.faultUpdate = some link) : Sound [] (World.update w link) ∧ link.reaches := by
  rw [Link.faultUpdate_eq (Link.failed sound.lag closed) small] at run
  cases run
  refine ⟨⟨sound.named, le_refl _, sound.unfreed, ?_, ?_, ?_⟩, beq_self_eq_true _⟩
  · intro e rd found
    have old := sound.recorded e rd found
    exact ⟨old.positive, old.small, old.owner, old.spdid, le_succ_of_le old.counted, old.parent⟩
  · intro e rd found _ current
    have counted := (sound.recorded e rd found).counted
    have current : rd.fcnt = w.client.link.globalFaultCnt + 1 := current
    omega
  · intro e rd found _
    exact sound.unknown e rd found fun reaches => absurd reaches closed

end Fault

/-! ## The invariant -/

def origin (rd : RecData) : Origin := ⟨rd.grp, rd.pEvtid⟩

/-- Events are tracked with the arguments of their split, freed ones too, and the group of a live event
is live. -/
structure Matched (w : World) (born : Table Eid Origin) (freed : List Eid) : Prop where
  origins : ∀ e, born.get e = (w.client.table.get e).map origin
  alive : ∀ e b, born.get e = some b → e ∉ freed → b.parent ≠ 0 → b.parent ∉ freed

/-- The events that a call under way names. -/
def Admitted (spd : SpdId) (born : Table Eid Origin) (freed : List Eid) : Task → Prop
  | .op (.split spdid parent _) => spdid = spd ∧ (parent ≠ 0 → (born.get parent).isSome ∧ parent ∉ freed)
  | .op (.wait _ evt) => (born.get evt).isSome
  | .op (.trigger _ evt) => (born.get evt).isSome
  | .op (.free _ _) => True
  | .recover _ => True

/-- The events that are being re-created. -/
def nest : Option (Invocation × Frame) → List Eid
  | some (_, .existing e stack _) => e :: stack
  | _ => []

/-- What the stub waits for. -/
def Waits (w : World) (born : Table Eid Origin) (freed : List Eid) (inv : Invocation) : Frame → Prop
  | .call op => inv = .op op ∧ (∀ spdid evt, op ≠ .free spdid evt) ∧
      Admitted w.client.spd born freed (.op op)
  | .existing e stack task => Nested w (e :: stack) ∧ Admitted w.client.spd born freed task ∧
      ∃ rd, w.client.table.get e = some rd ∧ inv = ask e rd
  | .upcall _ _ => False

structure Regular (o : Observed) : Prop where
  sound : Sound (nest o.session.pc) o.session.world
  matched : Matched o.session.world o.born o.freed
  waits : ∀ inv frame, o.session.pc = some (inv, frame) → Waits o.session.world o.born o.freed inv frame

section After

variable {w : World} {born : Table Eid Origin} {freed : List Eid} {task : Task}
  (matched : Matched w born freed)
include matched

theorem ret_regular (sound : Sound [] w) (v : Int) :
    Regular ⟨Session.after (w, .ret v), born, freed⟩ :=
  ⟨sound, matched, nofun⟩

theorem invoke_regular (sound : Sound [] w) {op : Op}
    (used : ∀ spdid evt, op ≠ .free spdid evt) (admitted : Admitted w.client.spd born freed (.op op)) :
    Regular ⟨Session.after (w, .invoke (.op op) (.call op)), born, freed⟩ := by
  refine ⟨sound, matched, ?_⟩
  rintro inv frame same
  cases same
  exact ⟨rfl, used, admitted⟩

variable {e : Eid} {stack : List Eid}

theorem ask_regular (sound : Sound (e :: stack) w) (nested : Nested w (e :: stack))
    (admitted : Admitted w.client.spd born freed task) (found : w.client.table.get e = some rd) :
    Regular ⟨Session.after (w, .invoke (ask e rd) (.existing e stack task)), born, freed⟩ := by
  refine ⟨sound, matched, ?_⟩
  rintro inv frame same
  cases same
  exact ⟨nested, admitted, rd, found, rfl⟩

variable {x : World × Action}

theorem proceed_regular (sound : Sound [] w) (task : Task)
    (admitted : Admitted w.client.spd born freed task) {found : Bool}
    (run : answered w (proceed w.client found task) = some x) : Regular ⟨Session.after x, born, freed⟩ := by
  cases task with
  | op op =>
    cases op with
    | free =>
      cases run
      exact ret_regular matched sound 0
    | split spdid parent grp | wait spdid evt | trigger spdid evt =>
      cases run
      exact invoke_regular matched sound (fun _ _ => nofun) admitted
  | recover =>
    cases found with
    | true =>
      cases run
      exact ret_regular matched sound 0
    | false => nomatch run

omit matched in
theorem Nested.tail (nested : Nested w (e :: stack)) : Nested w stack :=
  ⟨nested.reaches, (pairwise_cons.mp nested.sorted).2, fun k mem => nested.current k (mem_cons_of_mem e mem)⟩

theorem returned_regular (sound : Sound stack w)
    (nested : Nested w stack) (admitted : Admitted w.client.spd born freed task)
    (run : answered w (returned w.client true stack task) = some x) : Regular ⟨Session.after x, born, freed⟩ := by
  cases stack with
  | nil => exact proceed_regular matched sound task admitted run
  | cons e =>
    obtain ⟨rd, found, -⟩ := nested.current e mem_cons_self
    rw [returned, again_eq found (sound.recorded e rd found)] at run
    cases run
    exact ask_regular matched sound nested admitted found

theorem Matched.touch (recorded : Recorded w e rd)
    (found : w.client.table.get e = some rd) : Matched (World.touch w e rd) born freed := by
  refine ⟨fun k => ?_, matched.alive⟩
  by_cases same : k = e
  · subst same
    rw [touch_self w rd recorded.slot, matched.origins, found]
    rfl
  · rw [matched.origins, World.touch, Client.touch, recorded.slot, Table.get_set_of_ne _ same]

/-- The event is unknown to nobody but a server that can be reached. -/
def Findable (w : World) (e : Eid) : Prop :=
  e ≠ 0 → ∃ rd, w.client.table.get e = some rd ∧ (Current w rd ∨ w.client.link.reaches = true)

theorem rdUpdate_regular (sound : Sound [] w) (task : Task)
    (admitted : Admitted w.client.spd born freed task) (findable : Findable w e)
    (run : answered w (rdUpdate w.client e [] task) = some x) : Regular ⟨Session.after x, born, freed⟩ := by
  by_cases root : e = 0
  · rw [rdUpdate, if_pos root] at run
    exact proceed_regular matched sound task admitted run
  obtain ⟨rd, found, fresh⟩ := findable root
  have recorded := sound.recorded e rd found
  by_cases current : Current w rd
  · rw [rdUpdate_current sound found current] at run
    exact proceed_regular matched sound task admitted run
  · rw [rdUpdate_stale sound found current] at run
    cases run
    have regular := ask_regular (matched.touch recorded found) (touch_sound sound found current)
      (nested_touch recorded (fresh.resolve_left current)) admitted (touch_self w rd recorded.slot)
    exact regular

theorem Matched.tracked : (born.get e).isSome ↔ Tracked w e := by
  rw [matched.origins, isSome_map]
  rfl

/-- The event that is looked up at `redo`. -/
def target : Op → Eid
  | .split _ parent _ => parent
  | .free _ evt => evt
  | _ => 0

theorem redo_regular (sound : Sound [] w) (op : Op)
    (admitted : Admitted w.client.spd born freed (.op op)) (findable : Findable w (target op))
    (run : answered w (redo w.client op) = some x) : Regular ⟨Session.after x, born, freed⟩ := by
  cases op with
  | split spdid parent grp | free spdid evt => exact rdUpdate_regular matched sound _ admitted findable run
  | wait spdid evt | trigger spdid evt =>
    cases run
    exact invoke_regular matched sound (fun _ _ => nofun) admitted

end After

/-! ## A split that comes back -/

section Split

variable {w : World} {born : Table Eid Origin} {freed : List Eid} {parent : Eid} {grp : Int}

/-- The new record. -/
def newRd (w : World) (parent : Eid) (grp : Int) : RecData :=
  ⟨w.client.spd, parent, grp, w.client.link.globalFaultCnt⟩

/-- The world after a split: `server` has the event, the client its record. -/
def split (w : World) (server : Groups.State) (parent : Eid) (grp : Int) : World where
  client := { w.client with table := w.client.table.set (w.ns.slot : Int) (newRd w parent grp) }
  server := server
  ns := w.ns.add w.client.spd

theorem split_inverse (named : Named w.server) {w1 : World} {v : Int} {c : Client}
    (page : memory.page = true) (served : splitServed w memory w.client.spd parent grp 0 = some (w1, v))
    (tracked : rdevtAlloc w1.client v parent grp = some c) :
    ∃ server, { w1 with client := c } = split w server parent grp ∧ Named server ∧
      ((w.ns.slot : Int) < cvectMaxId) ∧ w.client.table.get (w.ns.slot : Int) = none ∧
      Under w.server parent w.client.spd ∧ describe server = Function.update (describe w.server)
        (w.ns.slot : Int) (some (descRd w.client.spd (newRd w parent grp))) := by
  obtain ⟨named', client, effect⟩ := splitServed_effect named served
  rw [rdevtAlloc, ite_none_right_eq_some] at tracked
  obtain ⟨⟨nonneg, small, unused⟩, same⟩ := tracked
  cases same
  rcases effect with ⟨negative, -⟩ | ⟨-, granted, under, -, described⟩
  · exact absurd negative (not_lt.mpr nonneg)
  · rw [if_pos page] at described
    obtain ⟨rfl, ns⟩ := granted.new rfl
    obtain ⟨client1, server, ns1⟩ := w1
    obtain rfl := client
    obtain rfl := ns
    exact ⟨server, rfl, named', small, unused, under, described⟩

theorem split_found (found : (split w server parent grp).client.table.get e = some rd) :
    e = (w.ns.slot : Int) ∧ rd = newRd w parent grp ∨ e ≠ (w.ns.slot : Int) ∧ w.client.table.get e = some rd :=
  update_known found

/-- A record other than the new one stays. -/
theorem split_get (sound : Sound [] w) (found : w.client.table.get e = some rd)
    (server : Groups.State) : (split w server parent grp).client.table.get e = some rd := by
  rw [split, Table.get_set_of_ne _ (tracked_ne_slot sound found), found]

/-- A group that the server has is tracked as one, and its id is smaller than the next. -/
theorem split_parent (sound : Sound [] w) (reaches : w.client.link.reaches)
    (tracked : ∃ prd, w.client.table.get parent = some prd) (inner : parent ≠ 0)
    (under : Under w.server parent w.client.spd) :
    parent < (w.ns.slot : Int) ∧ ∃ prd, w.client.table.get parent = some prd ∧ prd.grp ≠ 0 := by
  obtain ⟨prd, found⟩ := tracked
  have recorded := sound.recorded parent prd found
  constructor
  · have below := w.ns.below _ _ recorded.owner
    have next : w.ns.slot = w.ns.next := by
      rw [SlotMap.slot, sound.unfreed]
      rfl
    rw [next]
    exact (toNat_lt (le_of_lt recorded.positive)).mp below
  · refine ⟨prd, found, fun alone => ?_⟩
    obtain ⟨-, d, known, group, -⟩ := under inner
    rw [recorded.slot] at known
    by_cases current : Current w prd
    · rw [sound.known parent prd found reaches current not_mem_nil] at known
      cases known
      rw [descRd, alone] at group
      contradiction
    · rw [sound.unknown parent prd found fun _ no => absurd no current] at known
      contradiction

theorem split_sound (sound : Sound [] w) (reaches : w.client.link.reaches)
    (tracked : parent ≠ 0 → ∃ prd, w.client.table.get parent = some prd)
    (named : Named server) (small : (w.ns.slot : Int) < cvectMaxId) (under : Under w.server parent w.client.spd)
    (described : describe server = Function.update (describe w.server) (w.ns.slot : Int)
      (some (descRd w.client.spd (newRd w parent grp)))) : Sound [] (split w server parent grp) := by
  refine ⟨named, sound.lag, unfreed_add sound.unfreed w.client.spd, ?_, ?_, ?_⟩
  · intro e rd found
    rcases split_found found with ⟨rfl, rfl⟩ | ⟨-, old⟩
    · refine ⟨?_, small, ?_, rfl, le_refl _, fun inner => ?_⟩
      · exact natCast_pos.mpr w.ns.base_le_slot
      · rw [split, toNat_natCast, SlotMap.get_add, if_pos rfl]
      · obtain ⟨lt, prd, at_, group⟩ := split_parent sound reaches (tracked inner) inner under
        exact ⟨lt, prd, split_get sound at_ server, group⟩
    · have old := sound.recorded e rd old
      refine ⟨old.positive, old.small, SlotMap.get_add_of_some old.owner _, old.spdid, old.counted, fun inner => ?_⟩
      obtain ⟨lt, prd, at_, group⟩ := old.parent inner
      exact ⟨lt, prd, split_get sound at_ server, group⟩
  · intro e rd found _ current outside
    change describe server e = _
    rw [described]
    rcases split_found found with ⟨rfl, rfl⟩ | ⟨other, old⟩
    · rw [update_self]
      rfl
    · rw [update_of_ne other]
      exact sound.known e rd old reaches current outside
  · intro e rd found absent
    change describe server e = none
    rw [described]
    rcases split_found found with ⟨rfl, rfl⟩ | ⟨other, old⟩
    · exact absurd (absent reaches rfl) not_mem_nil
    · rw [update_of_ne other]
      exact sound.unknown e rd old absent

theorem split_matched (matched : Matched w born freed) (live : parent ≠ 0 → parent ∉ freed) (server : Groups.State) :
    Matched (split w server parent grp) (born.set (w.ns.slot : Int) ⟨grp, parent⟩) freed := by
  constructor
  · intro e
    rw [split, Table.get_set, Table.get_set, matched.origins]
    split
    · rfl
    · rfl
  · intro e b found
    obtain ⟨rfl, rfl⟩ | ⟨-, found⟩ := update_known found
    · exact fun _ => live
    · exact matched.alive e b found

end Split

/-! ## Steps -/

theorem init_regular (spd : SpdId) : Regular (history spd).init := by
  refine ret_regular ⟨fun _ => rfl, ?_⟩ ⟨named_init, le_refl _, rfl, ?_, ?_, ?_⟩ 0 <;>
    exact fun _ _ found => absurd found (some_ne_none _).symm

variable {o : Observed} {w : World} {s : Session}

theorem findable_fresh (tracked : Tracked w e) (fresh : Fresh w e) : Findable w e := by
  intro _
  obtain ⟨rd, found⟩ := isSome_iff_exists.mp tracked
  exact ⟨rd, found, fresh.symm.imp_left fun all => all rd found⟩

variable {born : Table Eid Origin} {freed : List Eid} {task : Task}

/-- Freeing an event that has no live one in its group. -/
theorem Matched.free (matched : Matched w born freed)
    {evt : Eid} (childless : born.All fun e b => e ∉ freed → b.parent ≠ evt) : Matched w born (evt :: freed) := by
  refine ⟨matched.origins, ?_⟩
  intro e b at_ live inner member
  have live := fun inside => live (mem_cons_of_mem evt inside)
  rcases mem_cons.mp member with same | member
  · exact childless e b at_ live same
  · exact matched.alive e b at_ live inner member

theorem bornNext_go {inv : Invocation} {frame : Frame} (at_ : o.session.pc = some (inv, frame))
    (other : (∀ spdid parent grp, inv ≠ .op (.split spdid parent grp)) ∨ o.session.world.client.link.reaches = false)
    (memory : Memory) : bornNext o (.go memory) = o.born := by
  simp only [bornNext, at_]
  split
  next same =>
    cases same
    rcases other with other | closed
    · exact absurd rfl (other _ _ _)
    · rw [closed]
      rfl
  · rfl

theorem call_regular (h : Regular o) (careful : Careful o (.call task)) (taken : o.session.step (.call task) = some s) :
    Regular ⟨s, o.born, freedNext o (.call task)⟩ := by
  simp only [Session.step, ite_none_right_eq_some] at taken
  obtain ⟨idle, taken⟩ := taken
  obtain ⟨x, begun, rfl⟩ := map_eq_some_iff.mp taken
  have sound := h.sound
  rw [idle] at sound
  have matched := h.matched
  cases task with
  | op op =>
    cases op with
    | split spdid parent grp =>
      obtain ⟨spd, place⟩ := careful
      refine redo_regular matched sound (.split spdid parent grp) ⟨spd, fun inner => ?_⟩ ?_ begun
      · obtain ⟨tracked, live, -⟩ := place.resolve_left inner
        exact ⟨matched.tracked.mpr tracked, live⟩
      · intro inner
        obtain ⟨tracked, -, fresh⟩ := place.resolve_left inner
        exact findable_fresh tracked fresh inner
    | wait spdid evt =>
      exact redo_regular matched sound (.wait spdid evt) (matched.tracked.mpr careful)
        (fun inner => absurd rfl inner) begun
    | trigger spdid evt =>
      exact redo_regular matched sound (.trigger spdid evt) (matched.tracked.mpr careful)
        (fun inner => absurd rfl inner) begun
    | free spdid evt =>
      obtain ⟨tracked, fresh, childless⟩ := careful
      exact redo_regular (matched.free childless) sound (.free spdid evt) trivial (findable_fresh tracked fresh) begun
  | recover evt =>
    obtain ⟨tracked, fresh⟩ := careful
    exact rdUpdate_regular matched sound (.recover evt) trivial (findable_fresh tracked fresh) begun

variable {x : World × Action}

/-- The server answers a wait or a trigger. -/
theorem answer_regular (sound : Sound [] w) (matched : Matched w born freed) (reaches : w.client.link.reaches)
    {result : Option (Groups.State × Int)} (keeps : ∀ server v, result = some (server, v) → Keeps w.server server)
    {op : Op} {evt : Eid} (admitted : Admitted w.client.spd born freed (.op op)) (tracked : (born.get evt).isSome)
    (run : ((w.served result).bind fun (w, v) => answered w
      (if v = einval then rdUpdate w.client evt [] (.op op) else some (w.client, .ret v))) = some x) :
    Regular ⟨Session.after x, born, freed⟩ := by
  obtain ⟨⟨w1, v⟩, served, run⟩ := bind_eq_some_iff.mp run
  obtain ⟨⟨server, ret⟩, result, same⟩ := map_eq_some_iff.mp served
  obtain ⟨rfl, rfl⟩ := Prod.mk.inj same
  have keeps := keeps server ret result
  have sound := Sound.frame sound (keeps.named sound.named) sound.unfreed (fun _ _ => id)
    fun e _ _ => congrFun keeps.describe e
  have matched : Matched { w with server } born freed := ⟨matched.origins, matched.alive⟩
  obtain ⟨rd, found⟩ := isSome_iff_exists.mp (matched.tracked.mp tracked)
  simp only at run
  split at run
  · exact rdUpdate_regular matched sound (.op op) admitted (fun _ => ⟨rd, found, .inr reaches⟩) run
  · cases run
    exact ret_regular matched sound ret

/-- The stub sees the fault at its invocation. -/
theorem fault_regular (sound : Sound [] w) (matched : Matched w born freed) (closed : ¬ w.client.link.reaches)
    (small : w.client.link.globalFaultCnt + 1 < counterModulus) {op : Op} (used : ∀ spdid evt, op ≠ .free spdid evt)
    (admitted : Admitted w.client.spd born freed (.op op))
    (run : answered w (resume w.client (.call op) .fault) = some x) : Regular ⟨Session.after x, born, freed⟩ := by
  obtain ⟨⟨c, action⟩, resumed, rfl⟩ := map_eq_some_iff.mp run
  obtain ⟨link, seen, redone⟩ := bind_eq_some_iff.mp resumed
  obtain ⟨sound', reaches⟩ := update_sound sound closed small seen
  have matched' : Matched (World.update w link) born freed := ⟨matched.origins, matched.alive⟩
  refine redo_regular matched' sound' op admitted ?_ (map_eq_some_iff.mpr ⟨_, redone, rfl⟩)
  intro inner
  cases op with
  | split =>
    obtain ⟨rd, found⟩ := isSome_iff_exists.mp (matched'.tracked.mp (admitted.2 inner).1)
    exact ⟨rd, found, .inr reaches⟩
  | free spdid evt => exact absurd rfl (used spdid evt)
  | wait spdid evt | trigger spdid evt => exact absurd rfl inner

/-- An invocation of `rd_update` comes back. -/
theorem existing_regular {stack : List Eid} (sound : Sound (e :: stack) w) (matched : Matched w born freed)
    (nested : Nested w (e :: stack)) (admitted : Admitted w.client.spd born freed task)
    (found : w.client.table.get e = some rd) (run : exchange plenty w (ask e rd) (.existing e stack task) = some x) :
    Regular ⟨Session.after x, born, freed⟩ := by
  have recorded := sound.recorded e rd found
  by_cases known : rd.pEvtid ≠ 0 → ∀ prd, w.client.table.get rd.pEvtid = some prd → Current w prd
  · obtain ⟨server, settled, sound', -⟩ := exchange_settles sound nested found task known
    rw [settled] at run
    exact returned_regular (by exact ⟨matched.origins, matched.alive⟩) sound'
      (Nested.tail (nested.kept (kept_server w server))) admitted run
  simp only [not_forall] at known
  obtain ⟨inner, prd, parent, stale⟩ := known
  have above := sound.recorded _ prd parent
  rw [exchange_descends sound nested found task inner parent stale] at run
  cases run
  have regular := ask_regular (matched.touch above parent) (touch_sound sound parent stale)
    (nested.descend recorded inner above parent) admitted (touch_self w prd above.slot)
  exact regular

theorem go_regular (h : Regular o) (careful : Careful o (.go memory)) (taken : o.session.step (.go memory) = some s) :
    Regular ⟨s, bornNext o (.go memory), o.freed⟩ := by
  obtain ⟨⟨inv, frame⟩, at_, taken⟩ := bind_eq_some_iff.mp taken
  obtain ⟨x, exchanged, rfl⟩ := map_eq_some_iff.mp taken
  have matched := h.matched
  have sound := h.sound
  have waits := h.waits inv frame at_
  rw [at_] at sound
  obtain ⟨small, page, slab⟩ := careful
  cases frame with
  | upcall => exact waits.elim
  | existing =>
    obtain ⟨nested, admitted, rd, found, rfl⟩ := waits
    have slab : memory.slab = true := slab (by rw [Updating, at_]; trivial)
    obtain ⟨_, _⟩ := memory
    obtain rfl : _ = true := slab
    obtain rfl : _ = true := page
    rw [bornNext_go at_ (.inl (by simp [ask]))]
    exact existing_regular sound matched nested admitted found exchanged
  | call op =>
    obtain ⟨rfl, used, admitted⟩ := waits
    by_cases reaches : o.session.world.client.link.reaches = true
    · rw [exchange, if_pos reaches] at exchanged
      cases op with
      | free spdid evt => exact absurd rfl (used spdid evt)
      | wait =>
        rw [bornNext_go at_ (.inl (by simp))]
        exact answer_regular sound matched reaches (fun _ _ => evtWait_keeps) admitted admitted exchanged
      | trigger =>
        rw [bornNext_go at_ (.inl (by simp))]
        exact answer_regular sound matched reaches (fun _ _ => evtTrigger_keeps) admitted admitted exchanged
      | split spdid parent grp =>
        obtain ⟨rfl, place⟩ := admitted
        obtain ⟨⟨w1, v⟩, served, exchanged⟩ := bind_eq_some_iff.mp exchanged
        obtain ⟨⟨c, action⟩, resumed, rfl⟩ := map_eq_some_iff.mp exchanged
        obtain ⟨c', tracked, same⟩ := map_eq_some_iff.mp resumed
        obtain ⟨rfl, rfl⟩ := Prod.mk.inj same
        obtain ⟨server, same, named, small, -, under, described⟩ := split_inverse sound.named page served tracked
        have found : parent ≠ 0 → ∃ prd, o.session.world.client.table.get parent = some prd :=
          fun inner => isSome_iff_exists.mp (matched.tracked.mp (place inner).1)
        have born : bornNext o (.go memory) = o.born.set (o.session.world.ns.slot : Int) ⟨grp, parent⟩ := by
          simp [bornNext, at_, if_pos reaches]
        change Regular ⟨Session.after ({ w1 with client := c' }, .ret v), _, o.freed⟩
        rw [same, born]
        exact ret_regular (split_matched matched (fun inner => (place inner).2) server)
          (split_sound sound reaches found named small under described) v
    · rw [exchange, if_neg reaches] at exchanged
      rw [bornNext_go at_ (.inr (Bool.eq_false_iff.mpr reaches))]
      exact fault_regular sound matched reaches small used admitted exchanged

/-- An id may be lost. -/
theorem lose_sound (sound : Sound [] o.session.world) (asked : Bool) :
    ∃ ns, (if asked then o.session.lose else o.session.world) = { o.session.world with ns } ∧
      Sound [] { o.session.world with ns } := by
  have same : ∃ ns, o.session.world = { o.session.world with ns } ∧ Sound [] { o.session.world with ns } :=
    ⟨_, rfl, sound⟩
  cases asked with
  | false => exact same
  | true =>
    change ∃ ns, o.session.lose = _ ∧ _
    unfold Session.lose
    split
    · split
      · exact ⟨_, rfl, Sound.frame sound sound.named (unfreed_add sound.unfreed _)
          (fun _ _ found => SlotMap.get_add_of_some found _) fun _ _ _ => rfl⟩
      · exact same
    · exact same

theorem nest_outside (outside : ¬ Updating s) : nest s.pc = [] := by
  rcases s with ⟨w, _ | ⟨inv, op | ⟨e, stack, task⟩ | ⟨stack, task⟩⟩⟩
  · rfl
  · rfl
  · exact absurd trivial outside
  · rfl

theorem reboot_regular {asked : Bool} (h : Regular o) (careful : Careful o (.reboot asked))
    (taken : o.session.step (.reboot asked) = some s) : Regular ⟨s, o.born, o.freed⟩ := by
  cases taken
  have outside := nest_outside careful
  have sound := h.sound
  rw [outside] at sound
  obtain ⟨ns, world, lost⟩ := lose_sound sound asked
  rw [world]
  refine ⟨outside ▸ reboot_sound lost, ⟨h.matched.origins, h.matched.alive⟩, fun inv frame at_ => ?_⟩
  have waits := h.waits inv frame at_
  cases frame with
  | call => exact waits
  | existing =>
    rw [at_] at outside
    nomatch outside
  | upcall => exact waits.elim

theorem other_regular {spdid : SpdId} {parent existing : Eid} {grp : Int} (h : Regular o)
    (taken : o.session.step (.other memory spdid parent grp existing) = some s) : Regular ⟨s, o.born, o.freed⟩ := by
  simp only [Session.step, ite_none_right_eq_some] at taken
  obtain ⟨⟨other, theirs⟩, taken⟩ := taken
  obtain ⟨⟨w, v⟩, served, rfl⟩ := map_eq_some_iff.mp taken
  obtain ⟨-, client, -⟩ := splitServed_effect h.sound.named served
  have sound := other_sound h.sound other theirs served
  obtain ⟨_, server, ns⟩ := w
  cases client
  refine ⟨sound, ⟨h.matched.origins, h.matched.alive⟩, fun inv frame at_ => ?_⟩
  have waits := h.waits inv frame at_
  cases frame with
  | call => exact waits
  | existing =>
    obtain ⟨nested, rest⟩ := waits
    exact ⟨⟨nested.reaches, nested.sorted, nested.current⟩, rest⟩
  | upcall => exact waits.elim

theorem step_regular {o' : Observed} (label : Label) (h : Regular o) (careful : Careful o label)
    (run : observe o label = some o') : Regular o' := by
  obtain ⟨s, taken, rfl⟩ := map_eq_some_iff.mp run
  cases label with
  | call => exact call_regular h careful taken
  | go => exact go_regular h careful taken
  | reboot => exact reboot_regular h careful taken
  | other => exact other_regular h taken

/-! ## Recovery -/

/-- The world in which the stub has seen the last fault. -/
def World.see (w : World) : Option World :=
  if w.client.link.reaches then some w else w.client.link.faultUpdate.map (World.update w)

theorem see_sound (sound : Sound [] w) (small : w.client.link.globalFaultCnt + 1 < counterModulus) :
    ∃ w', World.see w = some w' ∧ Sound [] w' ∧ w'.client.link.reaches ∧
      w'.client.table = w.client.table ∧ w'.client.spd = w.client.spd := by
  by_cases reaches : w.client.link.reaches = true
  · exact ⟨w, if_pos reaches, sound, reaches, rfl, rfl⟩
  · have seen := Link.faultUpdate_eq (Link.failed sound.lag reaches) small
    obtain ⟨sound', reaches'⟩ := update_sound sound reaches small seen
    refine ⟨_, ?_, sound', reaches', rfl, rfl⟩
    rw [World.see, if_neg reaches, seen]
    rfl

/-- In every careful history, wherever the last fault struck: once the stub has seen it, `rd_update` of
each live event ends, and the server then has the event under its id, with its kind and its group. -/
theorem events_recovered {spd : SpdId} {o : Observed} (reached : Reachable (history spd) Careful o)
    (outside : ¬ Updating o.session) (small : o.session.world.client.link.globalFaultCnt + 1 < counterModulus) {e : Eid}
    {b : Origin} (split : o.born.get e = some b) (live : e ∉ o.freed) :
    ∃ w fuel w', World.see o.session.world = some w ∧
      (∀ more, fuel ≤ more → (w.begin (.recover e)).bind (drive plenty more) = some (w', 0)) ∧
      describe w'.server e = some (o.expected b) := by
  have regular := reached.invariant Regular (init_regular spd) fun _ label _ => step_regular label
  have sound := regular.sound
  rw [nest_outside outside] at sound
  obtain ⟨rd, found, rfl⟩ := map_eq_some_iff.mp ((regular.matched.origins e).symm.trans split)
  obtain ⟨w, seen, sound', reaches, table, spd_⟩ := see_sound sound small
  rw [← table] at found
  obtain ⟨fuel, w', -, -, described, ends⟩ := recover_ends sound' reaches found
  refine ⟨w, fuel, w', seen, ends, ?_⟩
  have group : groupOf rd.pEvtid = if rd.pEvtid = 0 ∨ rd.pEvtid ∈ o.freed then none else some rd.pEvtid := by
    by_cases root : rd.pEvtid = 0
    · rw [groupOf, if_pos root, if_pos (.inl root)]
    · have kept : rd.pEvtid ∉ o.freed := regular.matched.alive e (origin rd) split live root
      obtain ⟨-, prd, parent, -⟩ := (sound'.recorded e rd found).parent root
      rw [groupOf, if_neg root, if_neg (not_or.mpr ⟨root, kept⟩), (sound'.recorded _ prd parent).slot]
  rw [described, descRd, spd_, group]
  rfl

/-- An event in a group, and a fault. -/
theorem nested_event_recovered : ∃ o w fuel w', Reachable (history 7) Careful o ∧
    o.born.get 2 = some ⟨0, 1⟩ ∧ World.see o.session.world = some w ∧
    (∀ more, fuel ≤ more → (w.begin (.recover 2)).bind (drive plenty more) = some (w', 0)) ∧
    describe w'.server 2 = some ⟨.normal, some 1, 7⟩ := by
  obtain ⟨o, run, split, live, outside, small, expected⟩ := exec_ends (history 7) Careful
    [.call (.op (.split 7 0 1)), .go plenty, .call (.op (.split 7 1 0)), .go plenty, .reboot false]
    (fun o => o.born.get 2 = some ⟨0, 1⟩ ∧ 2 ∉ o.freed ∧ ¬ Updating o.session ∧
      o.session.world.client.link.globalFaultCnt + 1 < counterModulus ∧
      o.expected ⟨0, 1⟩ = ⟨.normal, some 1, 7⟩) (by decide +kernel)
  obtain ⟨w, fuel, w', seen, ends, described⟩ := events_recovered ⟨_, run⟩ outside small split live
  exact ⟨o, w, fuel, w', ⟨_, run⟩, split, seen, ends, expected ▸ described⟩

/-- A group is freed before the event in it: the server has both again after the recovery, and the event
is in the group. -/
theorem freed_group_recreated : ∃ o w w', Reachable (history 7) anyStep o ∧
    o.born.get 2 = some ⟨0, 1⟩ ∧ 2 ∉ o.freed ∧ ¬ Updating o.session ∧
    o.expected ⟨0, 1⟩ = ⟨.normal, none, 7⟩ ∧ World.see o.session.world = some w ∧
    (w.begin (.recover 2)).bind (drive plenty 5) = some (w', 0) ∧ describe w'.server 2 = some ⟨.normal, some 1, 7⟩ := by
  obtain ⟨o, run, split, live, outside, expected, w, seen, ⟨w', v⟩, ends, rfl, described⟩ := exec_ends (history 7) anyStep
    [.call (.op (.split 7 0 1)), .go plenty, .call (.op (.split 7 1 0)), .go plenty,
      .call (.op (.free 7 1)), .reboot false]
    (fun o => o.born.get 2 = some ⟨0, 1⟩ ∧ 2 ∉ o.freed ∧ ¬ Updating o.session ∧
      o.expected ⟨0, 1⟩ = ⟨.normal, none, 7⟩ ∧ ∃ w ∈ World.see o.session.world,
        ∃ r ∈ (w.begin (.recover 2)).bind (drive plenty 5),
          r.2 = 0 ∧ describe r.1.server 2 = some ⟨.normal, some 1, 7⟩) (by decide +kernel)
  exact ⟨o, w, w', ⟨_, run⟩, split, live, outside, expected, seen, ends, described⟩

end SuperGlue.Guarantees.EventRecovery
