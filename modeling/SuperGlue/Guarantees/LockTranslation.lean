import SuperGlue.Source.Lock.Stub

/-!
# What a client's lock ids denote

A use is an operation that the server carries out on a lock it has found. Since the last reboot, the
uses of a client should pair each of its lock ids with one lock, and different ids with different
locks.

The server's counter keeps the ids apart that it hands out after a reboot. The records of the client also
hold ids from before it. The pairing holds as long as the counter does not meet one of those, and no two
threads re-allocate one lock at the same time.
-/
namespace SuperGlue.Guarantees.LockTranslation
open Option List Function Lib.Transition Lib.FiniteMap Source.Stub.Cstub Source.Lock.Stub

structure Observed where
  st : State
  /-- The uses since the last reboot. -/
  uses : List (ClientId × ServerId)
  /-- The locks whose record was set since the last reboot. -/
  fresh : List ClientId
  /-- The locks that threads are re-allocating. -/
  redoing : List ClientId

/-- The use that a step makes. -/
def used (self : SpdId) (s : State) : Label → Option (ClientId × ServerId)
  | .serve t =>
    match s.pc t with
    | .inside _ lkid sLkid entered =>
      if entered = s.link.faultCnt ∧ lockFind s.server sLkid self then some (lkid, sLkid) else none
    | _ => none
  | _ => none

/-- The lock that a thread begins to re-allocate. -/
def begun (self : SpdId) (s : State) : Label → Option ClientId
  | .serve t =>
    match s.pc t with
    | .inside op lkid sLkid _ => if lockFind s.server sLkid self ∨ op = .release then none else some lkid
    | _ => none
  | _ => none

/-- The lock whose record a step sets. -/
def recorded (s : State) : Label → Option ClientId
  | .returns t map =>
    match s.pc t with
    | .allocated r _ entered => if entered = s.link.faultCnt then some ((r.map Prod.snd).getD map) else none
    | _ => none
  | _ => none

def observe (self : SpdId) (o : Observed) (label : Label) : Option Observed :=
  (step self o.st label).map fun st =>
    ⟨st, if label = .reboot then [] else (used self o.st label).toList ++ o.uses,
      if label = .reboot then [] else (recorded o.st label).toList ++ o.fresh,
      (begun self o.st label).toList ++ (recorded o.st label).elim o.redoing o.redoing.erase⟩

def observedSystem (self : SpdId) : System Observed Label := ⟨⟨init, [], [], []⟩, observe self⟩

/-- Equal client ids are used as equal server ids, and different ones as different ones. -/
def Faithful (uses : List (ClientId × ServerId)) : Prop :=
  ∀ u ∈ uses, ∀ v ∈ uses, u.1 = v.1 ↔ u.2 = v.2

/-- The server serves a thread with the id that the record still has, and if it does not know that id, no
thread is re-allocating the lock; a release of an unknown lock does nothing. When the server hands out an
id, no record of another lock has it from before the reboot. The counter does not overflow. -/
def Careful (self : SpdId) (o : Observed) : Label → Prop
  | .serve t =>
    match o.st.pc t with
    | .inside op lkid sLkid _ => lockFind o.st.server sLkid self = false ∧ op = .release ∨
        o.st.sLkid lkid = some sLkid ∧ (lockFind o.st.server sLkid self = true ∨ lkid ∉ o.redoing)
    | .allocInside r _ => o.st.server.lockId + 1 < counterModulus ∧ o.st.table.All fun lkid rd =>
        rd.sLkid = o.st.server.lockId → lkid ∉ o.fresh → r.map Prod.snd = some lkid
    | _ => True
  | .other _ => o.st.server.lockId + 1 < counterModulus
  | _ => True

instance (uses : List (ClientId × ServerId)) : Decidable (Faithful uses) := by
  unfold Faithful
  infer_instance

instance (self : SpdId) : DecidableRel (Careful self)
  | _, .serve _ => by
    dsimp only [Careful]
    split <;> infer_instance
  | _, .other _ => Nat.decLt _ _
  | _, .call .. | _, .callAlloc _ | _, .invoke _ | _, .returns .. | _, .reboot => instDecidableTrue

/-! ## The invariant -/

/-- The server ids handed out since the last reboot: fresh records bear them, and threads that have not
recorded theirs yet. -/
def bears (o : Observed) : ClientId ⊕ Tid → Option ServerId
  | .inl lkid => if lkid ∈ o.fresh then o.st.sLkid lkid else none
  | .inr t => o.st.carries t

/-- The pair is what the record says now, and the server has the lock. -/
def Holds (self : SpdId) (s : State) (u : ClientId × ServerId) : Prop :=
  s.sLkid u.1 = some u.2 ∧ lockFind s.server u.2 self = true

/-- Each id has one bearer. A record from before the reboot has an id that the server knows only while a
thread brings that id back for the same lock. -/
structure Translated (spd : SpdId) (o : Observed) : Prop where
  issued : ∀ l ∈ o.st.server.locks, l.1 < o.st.server.lockId
  past : ∀ t r id n, o.st.pc t = .allocated r id n → n ≤ o.st.link.faultCnt
  borne : ∀ b id, bears o b = some id → lockFind o.st.server id spd = true
  separate : Separate (bears o)
  stale : ∀ lkid id, Holds spd o.st (lkid, id) → lkid ∉ o.fresh →
    ∃ t op, o.st.pc t = .allocated (some (op, lkid)) id o.st.link.faultCnt
  alone : ∀ t t' lkid, (o.st.pc t).recovers = some lkid → (o.st.pc t').recovers = some lkid → t = t'
  redoing : ∀ t lkid, (o.st.pc t).recovers = some lkid → lkid ∈ o.redoing ∧ lkid ∉ o.fresh ∧ o.st.sLkid lkid ≠ none
  holds : ∀ u ∈ o.uses, Holds spd o.st u

variable {self : SpdId} {o : Observed} {t : Tid} {id : ServerId}

theorem carries_iff {s : State} : s.carries t = some id ↔ ∃ r, s.pc t = .allocated r id s.link.faultCnt := by
  unfold State.carries
  split
  next at_ =>
    rw [ite_none_right_eq_some, at_]
    constructor
    · rintro ⟨rfl, ⟨⟩⟩
      exact ⟨_, rfl⟩
    · rintro ⟨r, ⟨⟩⟩
      exact ⟨rfl, rfl⟩
  next other =>
    constructor
    · simp
    · rintro ⟨r, at_⟩
      exact absurd at_ (other _ _ _)

/-- A new lock is found, and the others as before. -/
theorem lockFind_alloc {srv : Server} {spd : SpdId} :
    lockFind (lockAlloc srv spd).1 id self = true ↔ id = srv.lockId ∧ self = spd ∨ lockFind srv id self = true := by
  simp [lockFind, lockAlloc]

theorem issued_alloc {srv : Server} {spd : SpdId} (h : ∀ l ∈ srv.locks, l.1 < srv.lockId)
    (small : srv.lockId + 1 < counterModulus) :
    ∀ l ∈ (lockAlloc srv spd).1.locks, l.1 < (lockAlloc srv spd).1.lockId := by
  simp only [lockAlloc, Nat.mod_eq_of_lt small, mem_cons, forall_eq_or_imp]
  exact ⟨Nat.lt_succ_self _, fun l mem => Nat.lt_succ_of_lt (h l mem)⟩

section
variable (ok : Translated self o)
include ok

theorem Translated.find_lt (found : lockFind o.st.server id self = true) : id < o.st.server.lockId :=
  ok.issued (id, self) (contains_iff_mem.mp found)

/-- Who bears the id of a lock: its record, or the thread that brings it back. -/
theorem Translated.bearer {lkid : ClientId} (h : Holds self o.st (lkid, id)) : ∃ b, bears o b = some id ∧
    (b = .inl lkid ∨ ∃ t, b = .inr t ∧ (o.st.pc t).recovers = some lkid) := by
  by_cases fresh : lkid ∈ o.fresh
  · exact ⟨.inl lkid, (if_pos fresh).trans h.1, .inl rfl⟩
  · obtain ⟨t, op, at_⟩ := ok.stale lkid id h fresh
    exact ⟨.inr t, carries_iff.mpr ⟨_, at_⟩, .inr ⟨t, rfl, by rw [at_]; rfl⟩⟩

theorem Translated.faithful : Faithful o.uses := by
  intro u mu v mv
  have hu := ok.holds u mu
  have hv := ok.holds v mv
  constructor
  · intro same
    have recorded := hu.1
    rw [same, hv.1] at recorded
    exact (some.inj recorded).symm
  · intro same
    obtain ⟨a, bearsA, isA⟩ := ok.bearer hu
    obtain ⟨b, bearsB, isB⟩ := ok.bearer hv
    cases ok.separate a b u.2 bearsA (same ▸ bearsB)
    rcases isA with rfl | ⟨t, rfl, mine⟩
    · rcases isB with eq | ⟨t, eq, -⟩
      · exact Sum.inl.inj eq
      · contradiction
    · rcases isB with eq | ⟨t', eq, theirs⟩
      · contradiction
      · cases eq
        exact some.inj (mine.symm.trans theirs)

/-! ## Steps -/

variable {s' : State} {pc : Pc} {uses : List (ClientId × ServerId)} {redoing : List ClientId}

/-- A thread moves on. The lock that it re-allocates then is its own. -/
theorem Translated.moves (moves : Moves o.st t pc s') (holds : ∀ u ∈ uses, Holds self o.st u)
    (more : ∀ lkid ∈ o.redoing, lkid ∈ redoing)
    (mine : ∀ lkid, pc.recovers = some lkid → (∀ t', t' ≠ t → (o.st.pc t').recovers ≠ some lkid) ∧
      lkid ∈ redoing ∧ lkid ∉ o.fresh ∧ o.st.sLkid lkid ≠ none) : Translated self ⟨s', uses, o.fresh, redoing⟩ := by
  have at_ : ∀ t', s'.pc t' = if t' = t then pc else o.st.pc t' := fun t' => by rw [moves.pcs, update_apply]
  have carries : s'.carries = o.st.carries := by
    funext t'
    by_cases same : t' = t
    · subst same
      rw [moves.before]
      exact carries_none (by rw [at_, if_pos rfl]; exact moves.after)
    · rw [State.carries, State.carries, at_, if_neg same, moves.faults]
  have bears_ : bears ⟨s', uses, o.fresh, redoing⟩ = bears o := by
    funext b
    cases b with
    | inl => simp only [bears, moves.recorded]
    | inr => exact congrFun carries _
  have holds_ : ∀ u, Holds self s' u ↔ Holds self o.st u := fun u => by rw [Holds, moves.recorded, moves.server]; rfl
  refine ⟨?_, ?_, ?_, bears_ ▸ ok.separate, ?_, ?_, ?_, fun u mem => (holds_ u).mpr (holds u mem)⟩
  · rw [moves.server]
    exact ok.issued
  · intro t' r id n
    rw [at_, moves.faults]
    split
    · intro same
      exact absurd same (moves.after r id n)
    · exact ok.past t' r id n
  · rw [bears_, moves.server]
    exact ok.borne
  · intro lkid id h stale
    obtain ⟨t', op, was⟩ := ok.stale lkid id ((holds_ _).mp h) stale
    have other : t' ≠ t := by
      rintro rfl
      exact absurd (carries_iff.mpr ⟨_, was⟩) (by simp [moves.before])
    exact ⟨t', op, by rw [at_, if_neg other, moves.faults, was]⟩
  · intro t1 t2 lkid
    rw [at_, at_]
    split
    next same1 =>
      split
      next same2 => exact fun _ _ => same1.trans same2.symm
      next ne2 => exact fun is theirs => absurd theirs ((mine lkid is).1 t2 ne2)
    next ne1 =>
      split
      · exact fun theirs is => absurd theirs ((mine lkid is).1 t1 ne1)
      · exact ok.alone t1 t2 lkid
  · intro t' lkid
    rw [at_, moves.recorded]
    split
    · exact fun is => (mine lkid is).2
    · intro is
      obtain ⟨busy, rest⟩ := ok.redoing t' lkid is
      exact ⟨more lkid busy, rest⟩

theorem Translated.others {spd : SpdId} (other : spd ≠ self) (careful : o.st.server.lockId + 1 < counterModulus) :
    Translated self { o with st := { o.st with server := (lockAlloc o.st.server spd).1 } } := by
  have find : ∀ id, lockFind (lockAlloc o.st.server spd).1 id self = true ↔ lockFind o.st.server id self = true := by
    intro id
    rw [lockFind_alloc, or_iff_right fun new => other new.2.symm]
  exact { ok with
    issued := issued_alloc ok.issued careful
    borne := fun b id is => (find id).mpr (ok.borne b id is)
    stale := fun lkid id h => ok.stale lkid id ⟨h.1, (find id).mp h.2⟩
    holds := fun u mem => ⟨(ok.holds u mem).1, (find u.2).mpr (ok.holds u mem).2⟩ }

/-- The server hands out an id. -/
theorem Translated.allocates {r : Option (Op × ClientId)} (was : o.st.pc t = .allocInside r o.st.link.faultCnt)
    (careful : Careful self o (.serve t))
    (pcs : s'.pc = update o.st.pc t (.allocated r o.st.server.lockId o.st.link.faultCnt))
    (server : s'.server = (lockAlloc o.st.server self).1) (recorded : s'.sLkid = o.st.sLkid)
    (link : s'.link = o.st.link) : Translated self { o with st := s' } := by
  simp only [Careful, was] at careful
  have at_ : ∀ t', s'.pc t' = if t' = t then .allocated r o.st.server.lockId o.st.link.faultCnt else o.st.pc t' :=
    fun t' => by rw [pcs, update_apply]
  have find : ∀ id, lockFind s'.server id self = true ↔ id = o.st.server.lockId ∨ lockFind o.st.server id self = true := by
    intro id
    rw [server, lockFind_alloc, and_iff_left rfl]
  have recovers : ∀ t', (s'.pc t').recovers = (o.st.pc t').recovers := by
    intro t'
    rw [at_]
    split
    next same =>
      rw [same, was]
      rfl
    · rfl
  have bears_ : bears { o with st := s' } = update (bears o) (.inr t) (some o.st.server.lockId) := by
    funext b
    cases b with
    | inl => simp [bears, recorded]
    | inr t' =>
      by_cases same : t' = t
      · simp [bears, State.carries, at_, same, link]
      · simp [bears, State.carries, at_, same, link]
  refine ⟨server ▸ issued_alloc ok.issued careful.1, ?_, ?_, ?_, ?_, ?_, ?_, fun u mem => ?_⟩
  · intro t' r id n
    rw [at_, link]
    split
    · intro same
      cases same
      exact Nat.le_refl _
    · exact ok.past t' r id n
  · intro b id
    rw [bears_, find, update_apply]
    split
    · intro same
      exact .inl (some.inj same).symm
    · exact fun is => .inr (ok.borne b id is)
  · rw [bears_]
    exact ok.separate.update fun b is => absurd (ok.find_lt (ok.borne b _ is)) (Nat.lt_irrefl _)
  · rintro lkid id ⟨is, found⟩ stale
    rw [recorded] at is
    rcases (find id).mp found with rfl | old
    · obtain ⟨rd, get, same⟩ := map_eq_some_iff.mp is
      obtain ⟨⟨op, _⟩, rfl, rfl⟩ := map_eq_some_iff.mp (careful.2 lkid rd get same stale)
      exact ⟨t, op, by rw [at_, if_pos rfl, link]⟩
    · obtain ⟨t', op, other⟩ := ok.stale lkid id ⟨is, old⟩ stale
      have ne : t' ≠ t := by
        rintro rfl
        rw [was] at other
        contradiction
      exact ⟨t', op, by rw [at_, if_neg ne, other, link]⟩
  · simp only [recovers]
    exact ok.alone
  · simp only [recovers, recorded]
    exact ok.redoing
  · obtain ⟨is, found⟩ := ok.holds u mem
    exact ⟨recorded ▸ is, (find u.2).mpr (.inr found)⟩

section
variable {lkid : ClientId} {r : Option (Op × ClientId)} (was : o.st.pc t = .allocated r id o.st.link.faultCnt)
  (of : r.map Prod.snd = some lkid ∨ o.st.sLkid lkid = none)
include was of

/-- Another thread that re-allocates a lock does not re-allocate the one that `t` brings an id for. -/
theorem Translated.theirs {t' : Tid} {lkid' : ClientId} (ne : t' ≠ t) (is : (o.st.pc t').recovers = some lkid') :
    lkid' ≠ lkid := by
  rintro rfl
  rcases of with mine | fresh
  · exact ne (ok.alone t' t lkid' is (by rw [was]; exact mine))
  · exact (ok.redoing t' lkid' is).2.2 fresh

/-- If the server knows the id that is recorded for that lock, it is the one that `t` brings. -/
theorem Translated.brought {old : ServerId} (h : Holds self o.st (lkid, old)) : old = id := by
  rcases of with mine | fresh
  · have lost := (ok.redoing t lkid (by rw [was]; exact mine)).2.1
    obtain ⟨t', op, bringing⟩ := ok.stale lkid old h lost
    cases ok.alone t' t lkid (by rw [bringing]; rfl) (by rw [was]; exact mine)
    rw [was] at bringing
    cases bringing
    rfl
  · exact absurd (h.1.symm.trans fresh) (some_ne_none _)

end

/-- A thread records the id that it brings back, for its own lock or for a new one. -/
theorem Translated.records {map lkid : ClientId} {r : Option (Op × ClientId)}
    (was : o.st.pc t = .allocated r id o.st.link.faultCnt)
    (of : r.map Prod.snd = some lkid ∨ r = none ∧ lkid = map ∧ o.st.sLkid lkid = none)
    (pcs : s'.pc = update o.st.pc t pc) (after : pc = .idle ∨ ∃ op, pc = .redo op lkid) (server : s'.server = o.st.server)
    (recorded : s'.sLkid = update o.st.sLkid lkid (some id)) (link : s'.link = o.st.link) :
    Translated self ⟨s', o.uses, lkid :: o.fresh, o.redoing.erase lkid⟩ := by
  have at_ : ∀ t', s'.pc t' = if t' = t then pc else o.st.pc t' := fun t' => by rw [pcs, update_apply]
  have outside : pc.recovers = none ∧ ∀ r id n, pc ≠ .allocated r id n := by
    rcases after with rfl | ⟨op, rfl⟩ <;> simp [Pc.recovers]
  have for_ : r.map Prod.snd = some lkid ∨ o.st.sLkid lkid = none := of.imp_right (·.2.2)
  have carries : ∀ t', s'.carries t' = if t' = t then none else o.st.carries t' := by
    intro t'
    split
    next same => exact carries_none (by rw [at_, if_pos same]; exact outside.2)
    next ne => rw [State.carries, State.carries, at_, if_neg ne, link]
  have mine : bears o (.inr t) = some id := carries_iff.mpr ⟨r, was⟩
  -- The id passes from the thread to the record.
  have bears_ : ∀ b v, bears ⟨s', o.uses, lkid :: o.fresh, o.redoing.erase lkid⟩ b = some v →
      b = .inl lkid ∧ v = id ∨ b ≠ .inl lkid ∧ b ≠ .inr t ∧ bears o b = some v := by
    intro b v
    cases b with
    | inl lkid' =>
      by_cases same : lkid' = lkid
      · simp [bears, same, recorded, eq_comm]
      · simp [bears, same, recorded]
    | inr t' =>
      simp only [bears, carries]
      split
      · simp
      next ne => exact fun is => .inr ⟨by simp, by simp [ne], is⟩
  have kept : ∀ u, Holds self o.st u → Holds self s' u := by
    rintro ⟨lkid', id'⟩ h
    refine ⟨?_, server ▸ h.2⟩
    by_cases same : lkid' = lkid
    · subst same
      rw [recorded, ok.brought was for_ h]
      exact update_self ..
    · rw [recorded, update_of_ne same]
      exact h.1
  refine ⟨server ▸ ok.issued, ?_, ?_, ?_, ?_, ?_, ?_, fun u mem => kept u (ok.holds u mem)⟩
  · intro t' r id n
    rw [at_, link]
    split
    · intro same
      exact absurd same (outside.2 r id n)
    · exact ok.past t' r id n
  · intro b v is
    rw [server]
    rcases bears_ b v is with ⟨-, rfl⟩ | ⟨-, -, is⟩
    · exact ok.borne (.inr t) v mine
    · exact ok.borne b v is
  · intro a b v isA isB
    rcases bears_ a v isA with ⟨rfl, rfl⟩ | ⟨-, neA, isA⟩ <;> rcases bears_ b _ isB with ⟨rfl, same⟩ | ⟨-, neB, isB⟩
    · rfl
    · exact absurd (ok.separate b (.inr t) _ isB mine) neB
    · subst same
      exact absurd (ok.separate a (.inr t) _ isA mine) neA
    · exact ok.separate a b v isA isB
  · rintro lkid' id' ⟨is, found⟩ stale
    rw [mem_cons, not_or] at stale
    rw [recorded, update_of_ne stale.1] at is
    obtain ⟨t', op, bringing⟩ := ok.stale lkid' id' ⟨is, server ▸ found⟩ stale.2
    have ne : t' ≠ t := by
      rintro rfl
      rw [was] at bringing
      cases bringing
      rcases of with mine' | ⟨none_, -⟩
      · exact stale.1 (some.inj mine')
      · contradiction
    exact ⟨t', op, by rw [at_, if_neg ne, bringing, link]⟩
  · intro t1 t2 lkid'
    rw [at_, at_]
    split
    · simp [outside.1]
    · split
      · simp [outside.1]
      · exact ok.alone t1 t2 lkid'
  · intro t' lkid'
    rw [at_]
    split
    · simp [outside.1]
    next ne =>
      intro is
      have other := ok.theirs was for_ ne is
      obtain ⟨busy, stale, known⟩ := ok.redoing t' lkid' is
      exact ⟨(mem_erase_of_ne other).mpr busy, by simp [other, stale], by rw [recorded, update_of_ne other]; exact known⟩

theorem Translated.reboots :
    Translated self ⟨{ o.st with server := Server.boot, link := o.st.link.trigger }, [], [], o.redoing⟩ := by
  have none_ : ∀ t, ({ o.st with server := Server.boot, link := o.st.link.trigger } : State).carries t = none := by
    intro t
    unfold State.carries
    split
    next at_ =>
      have past := ok.past _ _ _ _ at_
      exact if_neg (Nat.ne_of_lt (Nat.lt_succ_of_le past))
    · rfl
  refine ⟨by simp [Server.boot], ?_, ?_, ?_, ?_, ok.alone, ?_, by simp⟩
  · intro t r id n at_
    exact Nat.le_succ_of_le (ok.past t r id n at_)
  · rintro (lkid | t) id is
    · simp [bears] at is
    · simp [bears, none_] at is
  · rintro (lkid | t) b v is
    · simp [bears] at is
    · simp [bears, none_] at is
  · rintro lkid id ⟨-, found⟩
    simp [lockFind, Server.boot] at found
  · intro t lkid is
    obtain ⟨busy, -, known⟩ := ok.redoing t lkid is
    exact ⟨busy, by simp, known⟩

end

theorem used_holds {label : Label} {u : ClientId × ServerId} (careful : Careful self o label)
    (h : used self o.st label = some u) : Holds self o.st u := by
  cases label with
  | serve =>
    simp only [used, Careful] at h careful
    split at h
    next at_ =>
      rw [at_] at careful
      rw [ite_none_right_eq_some] at h
      obtain ⟨⟨-, found⟩, same⟩ := h
      cases same
      rcases careful with ⟨missing, -⟩ | ⟨is, -⟩
      · rw [found] at missing
        contradiction
      · exact ⟨is, found⟩
    · contradiction
  | _ => contradiction

theorem recorded_none {label : Label} (of : label.thread = some t) (empty : o.st.carries t = none) :
    recorded o.st label = none := by
  cases label with
  | returns =>
    cases of
    rw [State.carries] at empty
    rw [recorded]
    generalize o.st.pc t = pc at empty
    cases pc with
    | allocated => simpa using empty
    | _ => rfl
  | _ => rfl

theorem translated_step {label : Label} {o' : Observed} (ok : Translated self o)
    (careful : Careful self o label) (h : observe self o label = some o') : Translated self o' := by
  obtain ⟨s', taken, rfl⟩ := map_eq_some_iff.mp h
  have uses : ∀ u ∈ (used self o.st label).toList ++ o.uses, Holds self o.st u := by
    intro u mem
    rcases mem_append.mp mem with now | earlier
    · exact used_holds careful (mem_toList.mp now)
    · exact ok.holds u earlier
  cases step_effect taken with
  | moves of moves same =>
    have running : label ≠ .reboot := fun eq => by simp [eq, Label.thread] at of
    rw [if_neg running, if_neg running, recorded_none of moves.before]
    refine ok.moves moves uses (fun lkid mem => mem_append_right _ mem) fun lkid is => ?_
    have was := (same.resolve_left (by simp [is])).symm.trans is
    obtain ⟨busy, rest⟩ := ok.redoing _ lkid was
    exact ⟨fun t' ne theirs => ne (ok.alone t' _ lkid theirs was), mem_append_right _ busy, rest⟩
  | unknown t op lkid sLkid was missing takes moves =>
    simp only [Careful, was, missing] at careful
    rcases careful with ⟨-, release⟩ | ⟨known, alone⟩
    · exact absurd release takes
    have busy := alone.resolve_left Bool.false_ne_true
    have new : begun self o.st (.serve t) = some lkid := by simp [begun, was, missing, takes]
    have quiet : recorded o.st (.serve t) = none := rfl
    rw [if_neg (by simp), if_neg (by simp), new, quiet]
    refine ok.moves moves uses (fun lkid mem => mem_append_right _ mem) fun lkid' is => ?_
    cases is
    refine ⟨fun t' _ theirs => busy (ok.redoing t' lkid theirs).1, mem_cons_self, fun fresh => ?_, by simp [known]⟩
    have found := ok.borne (.inl lkid) sLkid ((if_pos fresh).trans known)
    rw [missing] at found
    contradiction
  | allocates was pcs server kept link =>
    simpa [used, begun, recorded, was] using ok.allocates was careful pcs server kept link
  | others other => simpa [used, begun, recorded] using ok.others other careful
  | records t map lkid was of pcs after server kept link =>
    have set : recorded o.st (.returns t map) = some lkid := by
      rcases of with mine | ⟨rfl, rfl, -⟩
      · simp [recorded, was, mine]
      · simp [recorded, was]
    simpa [used, begun, set] using ok.records was of pcs after server kept link
  | reboots => simpa [used, begun, recorded] using ok.reboots

/-- In every careful run, the uses since the last reboot translate the client's ids one to one. -/
theorem ids_translated_one_to_one (self : SpdId) (o : Observed)
    (reached : Reachable (observedSystem self) (Careful self) o) : Faithful o.uses := by
  have translated : Translated self o := by
    apply reached.invariant
    · refine ⟨?_, ?_, ?_, ?_, ?_, ?_, ?_, ?_⟩ <;>
        simp [observedSystem, init, Server.boot, bears, State.carries, Separate, Holds, lockFind, Pc.recovers]
    · intro o label o' ok careful h
      exact translated_step ok careful h
  exact translated.faithful

/-- A thread allocates a lock. -/
def allocating (t : Tid) (map : ClientId) : List Label :=
  [.callAlloc t, .invoke t, .serve t, .returns t map]

/-- A take of a lock whose server id is unknown, from the first invocation that gets through. -/
def recovering (t : Tid) (map : ClientId) : List Label :=
  [.invoke t, .serve t, .invoke t, .serve t, .returns t map, .invoke t, .serve t]

/-- Another component's lock lies between the two of the client, so the new ids 1 and 2 do not meet
the old ids 1 and 3. -/
theorem ids_translated_after_reboot :
    ∃ o, Reachable (observedSystem 7) (Careful 7) o ∧ o.uses = [(2, 2), (1, 1)] ∧ Faithful o.uses := by
  exact exec_reaches
    (flatten [allocating 0 1, [.other 9], allocating 0 2, [.reboot, .call 0 .take 1, .invoke 0],
      recovering 0 3, [.call 1 .take 2], recovering 1 3])
    (fun o => o.uses == [(2, 2), (1, 1)]) (by decide +kernel)
    fun o reached ends => ⟨eq_of_beq ends, ids_translated_one_to_one 7 o reached⟩

/-- After the reboot the second lock is used first and gets the server id 1, which is the old id of the
first lock: both are then used as the same server lock. -/
theorem stale_id_denotes_other_lock :
    ∃ o, Reachable (observedSystem 7) anyStep o ∧ o.uses = [(1, 1), (2, 1)] ∧ ¬ Faithful o.uses := by
  refine exec_reaches
    (flatten [allocating 0 1, allocating 0 2, [.reboot, .call 0 .take 2, .invoke 0], recovering 0 3,
      [.call 1 .take 1, .invoke 1, .serve 1]])
    (fun o => o.uses == [(1, 1), (2, 1)]) (by decide +kernel) fun o _ ends => ?_
  have uses := eq_of_beq ends
  exact ⟨uses, by rw [uses]; decide⟩

end SuperGlue.Guarantees.LockTranslation
