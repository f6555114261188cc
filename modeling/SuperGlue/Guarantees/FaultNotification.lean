import SuperGlue.Lib.FiniteMap
import SuperGlue.Lib.Transition
import SuperGlue.Guarantees.FaultFrames

/-!
# Notification of faults

Threads make invocations, return and are switched, components fault, and clients bring their
capabilities up to date, in any order and on any number of processors.
-/
namespace SuperGlue.Guarantees.FaultNotification
open Bool Function Option Lib.FiniteMap Lib.Transition Source.Kernel.Invocation FaultFrames

/-! ## The system -/

inductive Op where
  | invoke (cpu : CpuId) (cap : CapNo) (ip : VAddr)
  | pop (cpu : CpuId)
  | switchThread (cpu : CpuId) (next : ThdId) (ip : VAddr)
  | interrupt (cpu : CpuId) (next : ThdId) (ip : VAddr)
  | ainvCompletion (cpu : CpuId) (prev : ThdId)
  | faultCnt (spdid : SpdId) (option : CntOption) (d : SpdId) (cap : CapNo)
  | createThread (thd : ThdId) (dest : SpdId)
  | reserveCaps (spd : SpdId) (n : Nat)
  | addStaticCap (owner trusted : SpdId) (cap : CapNo) (entry : VAddr)
  | activateCap (spd : SpdId) (cap : CapNo) (dspd : SpdId) (entry : VAddr)
  deriving DecidableEq, Repr

/-- The kernel, with the number of faults of a server at the last update by a client and that of the
destination of a capability when it was created, and whether the count of the capability was left behind
then. -/
structure Tracked where
  state : State
  updated : SpdId → SpdId → Nat
  created : SpdId → CapNo → Nat
  late : SpdId → CapNo → Bool

/-- The faults there had been when the capability was created or its client last made an update. -/
def Tracked.since (t : Tracked) (owner : SpdId) (i : CapNo) (c : Cap) : Nat :=
  max (t.updated owner c.destination) (t.created owner i)

/-- The destination has faulted since then, or the count was left behind then. -/
def Tracked.behind (t : Tracked) (owner : SpdId) (i : CapNo) (c : Cap) : Bool :=
  t.late owner i || decide (t.since owner i c < t.state.faults c.destination)

/-- An invocation that overruns the stack has no next state. -/
def invoke (env : Env) (s : State) (cpu : CpuId) (cap : CapNo) (ip : VAddr) : Option State :=
  match ipcWalkStaticCap env s (s.curr cpu) cap ip with
  | (_, .overrun) => none
  | (_, .diverted none) => none
  | (s, _) => some s

/-- An update through a capability that is behind reaches those in the range of the table, and one through
another capability reaches none. -/
def Tracked.noteUpdate (t : Tracked) (d : SpdId) (cap : CapNo) (s : State) : Tracked :=
  match t.state.caps d cap with
  | none => { t with state := s }
  | some c => { t with
      state := s
      updated := update t.updated d (update (t.updated d) c.destination (t.state.faults c.destination))
      late := update t.late d fun i =>
        match t.state.caps d i with
        | none => t.late d i
        | some c' =>
          if c'.destination ≠ c.destination then t.late d i
          else if t.behind d cap c ∧ 0 < i ∧ i < t.state.ncaps d then false
          else t.behind d i c' }

def Tracked.noteCap (t : Tracked) (owner : SpdId) (cap : CapNo) (dest : SpdId) (late : Bool) (s : State) : Tracked :=
  { t with
    state := s
    created := update t.created owner (update (t.created owner) cap (t.state.faults dest))
    late := update t.late owner (update (t.late owner) cap late) }

def step (env : Env) (t : Tracked) : Op → Option Tracked
  | .invoke cpu cap ip => (invoke env t.state cpu cap ip).map fun s => { t with state := s }
  | .pop cpu => (pop env t.state cpu).map fun (s, _) => { t with state := s }
  | .switchThread cpu next ip =>
    (switchThread env t.state cpu next ip).map fun (s, _) => { t with state := s }
  | .interrupt cpu next ip => (interrupt t.state cpu next ip).map fun s => { t with state := s }
  | .ainvCompletion cpu prev =>
    (ainvCompletionSwitchTo t.state cpu prev).map fun s => { t with state := s }
  | .faultCnt spdid option d cap =>
    (faultCntSyscallHelper env t.state spdid option d cap).map fun (s, ret) =>
      if option = .capFaultUpdate ∧ 0 ≤ ret then t.noteUpdate d cap s else { t with state := s }
  | .createThread thd dest => (createThread t.state thd dest).map fun s => { t with state := s }
  | .reserveCaps spd n => some { t with state := t.state.setNcaps spd n }
  | .addStaticCap owner trusted cap entry =>
    (spdAddStaticCap t.state owner trusted cap entry).map fun s =>
      if maxStaticCap ≤ cap then { t with state := s }
      else t.noteCap owner cap trusted (decide (0 < t.state.faults trusted)) s
  | .activateCap spd cap dspd entry =>
    let s := spdCapSetDest t.state spd cap dspd entry
    some (if t.state.ncaps spd ≤ cap + 1 then { t with state := s } else t.noteCap spd (cap + 1) dspd false s)

def kernel (env : Env) : System Tracked Op where
  init := ⟨init, fun _ _ => 0, fun _ _ => 0, fun _ _ => false⟩
  step := step env

/-- The counter of a component that faults does not wrap. -/
def NoWrap (t : Tracked) : Op → Prop
  | .faultCnt _ option d _ => option = .spdFaultTrigger → t.state.faults d + 1 < wordSize
  | _ => True

instance : DecidableRel NoWrap := by
  intro s op
  unfold NoWrap
  split <;> infer_instance

/-! ## The counts in the capabilities -/

/-- The counts in the capabilities are those of the last update or creation, or behind. -/
structure CapsOk (t : Tracked) : Prop where
  past : ∀ a b, t.updated a b ≤ t.state.faults b
  born : ∀ a i c, t.state.caps a i = some c → t.created a i ≤ t.state.faults c.destination
  current : ∀ a i c, t.state.caps a i = some c → t.late a i = false → c.cnt = t.since a i c
  missed : ∀ a i c, t.state.caps a i = some c → t.late a i = true → c.cnt < t.state.faults c.destination

variable {s s' : State} {t t' : Tracked} {env : Env}

theorem CapsOk.since_le (ok : CapsOk t) {a : SpdId} {i : CapNo} {c : Cap} (found : t.state.caps a i = some c) :
    t.since a i c ≤ t.state.faults c.destination :=
  max_le (ok.past a c.destination) (ok.born a i c found)

theorem CapsOk.cnt_le (ok : CapsOk t) {a : SpdId} {i : CapNo} {c : Cap} (found : t.state.caps a i = some c) :
    c.cnt ≤ t.state.faults c.destination := by
  cases late : t.late a i with
  | true => exact (ok.missed a i c found late).le
  | false => exact ok.current a i c found late ▸ ok.since_le found

/-- A capability is behind if its count is. -/
theorem CapsOk.behind_iff (few : Few t.state) (ok : CapsOk t) {a : SpdId} {i : CapNo} {c : Cap}
    (found : t.state.caps a i = some c) : t.behind a i c = true ↔ c.cnt < t.state.cnt c.destination := by
  rw [few.cnt, Tracked.behind, or_eq_true, decide_eq_true_eq]
  cases late : t.late a i with
  | true => exact iff_of_true (.inl rfl) (ok.missed a i c found late)
  | false => simp [ok.current a i c found late]

theorem CapsOk.stable (ok : CapsOk t) (stable : Stable t.state s') : CapsOk { t with state := s' } := by
  refine ⟨?_, ?_, ?_, ?_⟩
  · rw [stable.faults]
    exact ok.past
  · rw [stable.faults, stable.caps]
    exact ok.born
  · rw [stable.caps]
    exact ok.current
  · rw [stable.faults, stable.caps]
    exact ok.missed

variable {d : SpdId} {i : CapNo}

theorem CapsOk.trigger (ok : CapsOk t) (d : SpdId) : CapsOk { t with state := t.state.trigger d } := by
  have more : ∀ b, t.state.faults b ≤ (t.state.trigger d).faults b := by
    intro b
    simp only [State.trigger, update_apply]
    split
    next eq => rw [eq]; exact Nat.le_succ _
    · exact Nat.le_refl _
  refine ⟨fun a b => (ok.past a b).trans (more b), ?_, ok.current, ?_⟩
  · exact fun a i c found => (ok.born a i c found).trans (more _)
  · exact fun a i c found late => (ok.missed a i c found late).trans_le (more _)

variable {cap : CapNo} {c : Cap}

/-- What the loop of an update leaves in a table. -/
theorem refreshCaps_cases {dest a : SpdId} {cap : Cap} (found : (s.refreshCaps d dest).caps a i = some cap) :
    s.caps a i = some cap ∧ ((a = d ∧ 0 < i ∧ i < s.ncaps d) → cap.destination ≠ dest) ∨
      a = d ∧ 0 < i ∧ i < s.ncaps d ∧ ∃ old, s.caps d i = some old ∧ old.destination = dest ∧
        cap.destination = dest ∧ cap.cnt = s.cnt dest := by
  by_cases mine : a = d
  · subst mine
    simp only [State.refreshCaps, update_self] at found
    split at found
    next visible =>
      obtain ⟨old, old_found, rfl⟩ := map_eq_some_iff.mp found
      by_cases same : old.destination = dest
      · exact .inr ⟨rfl, visible.1, visible.2, old, old_found, same, by simp [same], by simp [same]⟩
      · refine .inl ⟨?_, fun _ => ?_⟩
        · simpa [same] using old_found
        · simp [same]
    next hidden => exact .inl ⟨found, fun h => absurd h.2 hidden⟩
  · refine .inl ⟨?_, fun h => absurd h.1 mine⟩
    simpa [State.refreshCaps, mine] using found

/-- An update does not concern the capabilities of others, nor those to other servers. -/
theorem noteUpdate_other (found : t.state.caps d cap = some c) {a : SpdId} {c' : Cap} (found' : t.state.caps a i = some c')
    (other : ¬ (a = d ∧ c'.destination = c.destination)) (s' : State) :
    (t.noteUpdate d cap s').since a i c' = t.since a i c' ∧ (t.noteUpdate d cap s').late a i = t.late a i := by
  simp only [Tracked.noteUpdate, found, Tracked.since]
  by_cases mine : a = d
  · subst mine
    have other : c'.destination ≠ c.destination := fun same => other ⟨rfl, same⟩
    simp [found', other]
  · simp [mine]

/-- Afterwards the capabilities that it reaches are not behind, and the others are if they were before. -/
theorem noteUpdate_same (ok : CapsOk t) (found : t.state.caps d cap = some c) {c' : Cap}
    (found' : t.state.caps d i = some c') (same : c'.destination = c.destination) (s' : State) :
    (t.noteUpdate d cap s').since d i c' = t.state.faults c'.destination ∧ (t.noteUpdate d cap s').late d i =
      if t.behind d cap c ∧ 0 < i ∧ i < t.state.ncaps d then false else t.behind d i c' := by
  have born := same ▸ ok.born d i c' found'
  simp [Tracked.noteUpdate, found, Tracked.since, found', same, born]

variable {ret : Int}

theorem capFaultUpdate_same (run : capFaultUpdate s d cap = some (s', ret)) :
    s'.threads = s.threads ∧ s'.faults = s.faults ∧ s'.ncaps = s.ncaps ∧ 0 ≤ ret := by
  unfold capFaultUpdate at run
  split at run
  · contradiction
  · split at run
    all_goals
      cases run
      exact ⟨rfl, rfl, rfl, Int.natCast_nonneg _⟩

/-- What an update leaves: through a capability that is behind, the current count in every capability in the
range of the table, and otherwise every capability as it was. -/
theorem capFaultUpdate_cases (few : Few t.state) (ok : CapsOk t) (found : t.state.caps d cap = some c)
    (run : capFaultUpdate t.state d cap = some (s', ret)) {a : SpdId} {c' : Cap} (after : s'.caps a i = some c') :
    t.state.caps a i = some c' ∧
        (a = d ∧ c'.destination = c.destination → ¬ (t.behind d cap c = true ∧ 0 < i ∧ i < t.state.ncaps d)) ∨
      ∃ old, t.state.caps d i = some old ∧ old.destination = c.destination ∧ a = d ∧ c'.destination = c.destination ∧
        t.behind d cap c = true ∧ 0 < i ∧ i < t.state.ncaps d ∧ c'.cnt = t.state.faults c.destination := by
  simp only [capFaultUpdate, found] at run
  split at run
  next current =>
    cases run
    refine .inl ⟨after, fun _ reached => ?_⟩
    rw [ok.behind_iff few found, current] at reached
    exact lt_irrefl _ reached.1
  next stale =>
    cases run
    have behind : t.behind d cap c = true := by
      rw [ok.behind_iff few found]
      exact lt_of_le_of_ne (few.cnt c.destination ▸ ok.cnt_le found) stale
    rcases refreshCaps_cases after with ⟨same, other⟩ | ⟨rfl, pos, inside, old, found', toServer, dest, copy⟩
    · refine .inl ⟨same, ?_⟩
      rintro ⟨rfl, dest⟩ ⟨-, pos, inside⟩
      exact other ⟨rfl, pos, inside⟩ dest
    · exact .inr ⟨old, found', toServer, rfl, dest, behind, pos, inside, copy.trans (few.cnt _)⟩

theorem CapsOk.refreshed (few : Few t.state) (ok : CapsOk t)
    (run : capFaultUpdate t.state d cap = some (s', ret)) : CapsOk (t.noteUpdate d cap s') := by
  obtain ⟨c, found⟩ : ∃ c, t.state.caps d cap = some c := by
    cases found : t.state.caps d cap with
    | none => simp [capFaultUpdate, found] at run
    | some c => exact ⟨c, rfl⟩
  have state : (t.noteUpdate d cap s').state = s' := by simp [Tracked.noteUpdate, found]
  have created : (t.noteUpdate d cap s').created = t.created := by simp [Tracked.noteUpdate, found]
  have faults := (capFaultUpdate_same run).2.1
  -- what is said of a count, for those that the update has left and those that it has set
  have counts : ∀ a i c', s'.caps a i = some c' → t.created a i ≤ t.state.faults c'.destination ∧
      ((t.noteUpdate d cap s').late a i = false → c'.cnt = (t.noteUpdate d cap s').since a i c') ∧
      ((t.noteUpdate d cap s').late a i = true → c'.cnt < t.state.faults c'.destination) := by
    intro a i c' after
    rcases capFaultUpdate_cases few ok found run after with
      ⟨before, unreached⟩ | ⟨old, before, toServer, rfl, dest, behind, pos, inside, copy⟩
    · refine ⟨ok.born a i c' before, ?_⟩
      by_cases mine : a = d ∧ c'.destination = c.destination
      · obtain ⟨rfl, same⟩ := mine
        obtain ⟨since, late⟩ := noteUpdate_same ok found before same s'
        rw [since, late, if_neg (unreached ⟨rfl, same⟩)]
        constructor
        · intro level
          have copy := mt (ok.behind_iff few before).mpr (by simp [level])
          rw [few.cnt] at copy
          exact le_antisymm (ok.cnt_le before) (not_lt.mp copy)
        · intro behind
          exact few.cnt c'.destination ▸ (ok.behind_iff few before).mp behind
      · obtain ⟨since, late⟩ := noteUpdate_other found before mine s'
        rw [since, late]
        exact ⟨ok.current a i c' before, ok.missed a i c' before⟩
    · obtain ⟨since, late⟩ := noteUpdate_same ok found before toServer s'
      have moved : (t.noteUpdate a cap s').since a i c' = (t.noteUpdate a cap s').since a i old := by
        simp only [Tracked.since, dest, toServer]
      rw [late, if_pos ⟨behind, pos, inside⟩, moved, since, copy, toServer, dest]
      exact ⟨toServer ▸ ok.born a i old before, fun _ => rfl, by simp⟩
  refine ⟨?_, ?_, ?_, ?_⟩
  · intro a b
    rw [state, faults]
    simp only [Tracked.noteUpdate, found, update_apply]
    split
    · rw [update_apply]
      split
      next eq => rw [eq]
      · exact ok.past d b
    · exact ok.past a b
  · intro a i c' after
    rw [state] at after ⊢
    rw [created, faults]
    exact (counts a i c' after).1
  · intro a i c' after
    exact (counts a i c' (state ▸ after)).2.1
  · intro a i c' after
    rw [state] at after ⊢
    rw [faults]
    exact (counts a i c' after).2.2

/-- A new capability has the current count, or 0 and is behind if its destination has faulted. -/
theorem CapsOk.noteCap (ok : CapsOk t) (owner : SpdId) (cap : CapNo) (late : Bool) (faults : s'.faults = t.state.faults)
    (caps : s'.caps = update t.state.caps owner (update (t.state.caps owner) cap (some c)))
    (current : late = false → c.cnt = t.state.faults c.destination)
    (missed : late = true → c.cnt < t.state.faults c.destination) :
    CapsOk (t.noteCap owner cap c.destination late s') := by
  have cases_ : ∀ a i c', s'.caps a i = some c' → a = owner ∧ i = cap ∧ c' = c ∨
      ¬ (a = owner ∧ i = cap) ∧ t.state.caps a i = some c' := by
    intro a i c' found
    rw [caps] at found
    by_cases mine : a = owner
    · subst mine
      rw [update_self] at found
      exact (update_known found).imp (fun new => ⟨rfl, new⟩) (And.imp_left fun other both => other both.2)
    · rw [update_of_ne mine] at found
      exact .inr ⟨fun both => mine both.1, found⟩
  have fresh : (t.noteCap owner cap c.destination late s').created owner cap = t.state.faults c.destination ∧
      (t.noteCap owner cap c.destination late s').late owner cap = late := by simp [Tracked.noteCap]
  have old : ∀ a i, ¬ (a = owner ∧ i = cap) → (t.noteCap owner cap c.destination late s').created a i = t.created a i ∧
      (t.noteCap owner cap c.destination late s').late a i = t.late a i := by
    intro a i other
    by_cases mine : a = owner
    · subst mine
      have other : i ≠ cap := fun same => other ⟨rfl, same⟩
      simp [Tracked.noteCap, other]
    · simp [Tracked.noteCap, mine]
  refine ⟨fun a b => faults ▸ ok.past a b, ?_, ?_, ?_⟩
  · intro a i c' found
    change _ ≤ s'.faults _
    rw [faults]
    rcases cases_ a i c' found with ⟨rfl, rfl, rfl⟩ | ⟨other, before⟩
    · exact fresh.1.le
    · exact (old a i other).1 ▸ ok.born a i c' before
  · intro a i c' found
    rcases cases_ a i c' found with ⟨rfl, rfl, rfl⟩ | ⟨other, before⟩
    · have since : (t.noteCap a i c'.destination late s').since a i c' = t.state.faults c'.destination := by
        rw [Tracked.since, fresh.1]
        exact max_eq_right (ok.past a c'.destination)
      rw [fresh.2, since]
      exact current
    · rw [(old a i other).2, Tracked.since, (old a i other).1]
      exact ok.current a i c' before
  · intro a i c' found
    change _ → _ < s'.faults _
    rw [faults]
    rcases cases_ a i c' found with ⟨rfl, rfl, rfl⟩ | ⟨other, before⟩
    · rw [fresh.2]
      exact missed
    · rw [(old a i other).2]
      exact ok.missed a i c' before

/-! ## The invariant -/

structure KernelOk (t : Tracked) : Prop where
  few : Few t.state
  frames : ThreadsOk t.state
  caps : CapsOk t

theorem KernelOk.stable (h : KernelOk t) (frames : ThreadsOk s') (stable : Stable t.state s') :
    KernelOk { t with state := s' } :=
  ⟨stable.few h.few, frames, h.caps.stable stable⟩

theorem kernelOk_init (env : Env) : KernelOk (kernel env).init := by
  refine ⟨?_, ?_, ?_, ?_, ?_, ?_⟩
  · exact fun _ => Nat.two_pow_pos 32
  · exact nofun
  · exact fun _ _ => Nat.le_refl _
  · exact nofun
  · exact nofun
  · exact nofun

variable {cpu : CpuId} {owner : SpdId}

theorem invoke_ok {ip : VAddr} (h : KernelOk t)
    (run : invoke env t.state cpu cap ip = some s') : KernelOk { t with state := s' } := by
  cases walk : ipcWalkStaticCap env t.state (t.state.curr cpu) cap ip with
  | mk =>
    obtain ⟨frames, stable⟩ := ipcWalkStaticCap_ok h.few h.frames walk
    unfold invoke at run
    rw [walk] at run
    split at run
    · contradiction
    · contradiction
    next eq =>
      cases eq
      cases run
      exact h.stable frames stable

theorem trigger_ok (h : KernelOk t) (room : t.state.faults d + 1 < wordSize) :
    KernelOk { t with state := t.state.trigger d } := by
  refine ⟨?_, ?_, h.caps.trigger d⟩
  · intro b
    simp only [State.trigger, update_apply]
    split
    · exact room
    · exact h.few b
  · intro thd th found f mem
    refine (h.frames thd th found f mem).mono ?_
    intro b
    simp only [State.trigger, update_apply]
    split
    next eq => rw [eq]; exact Nat.le_succ _
    · exact Nat.le_refl _

theorem faultCnt_ok {spdid : SpdId} {option : CntOption} (h : KernelOk t)
    (room : option = .spdFaultTrigger → t.state.faults d + 1 < wordSize)
    (run : faultCntSyscallHelper env t.state spdid option d cap = some (s', ret)) :
    KernelOk (if option = .capFaultUpdate ∧ 0 ≤ ret then t.noteUpdate d cap s' else { t with state := s' }) := by
  have rejected : ¬ (option = .capFaultUpdate ∧ (0 : Int) ≤ -1) := fun both => absurd both.2 (by decide)
  unfold faultCntSyscallHelper at run
  split at run
  · cases run
    rw [if_neg rejected]
    exact h
  split at run
  · cases run
    rw [if_neg rejected]
    exact h
  cases option with
  | spdFaultTrigger =>
    cases run
    exact trigger_ok h (room rfl)
  | capReflectUpdate =>
    have state : (capReflectUpdate t.state d).1 = s' := congrArg Prod.fst (some.inj run)
    obtain ⟨stable, threads⟩ : Stable t.state s' ∧ s'.threads = t.state.threads := by
      rw [← state, capReflectUpdate]
      split
      · exact ⟨.refl _, rfl⟩
      · split
        · exact ⟨⟨rfl, rfl, rfl⟩, rfl⟩
        · exact ⟨.refl _, rfl⟩
    exact h.stable (h.frames.congr threads stable.faults) stable
  | capFaultUpdate =>
    obtain ⟨threads, faults, -, answered⟩ := capFaultUpdate_same run
    rw [if_pos ⟨rfl, answered⟩]
    have caps := h.caps.refreshed h.few run
    have state : (t.noteUpdate d cap s').state = s' := by
      unfold Tracked.noteUpdate
      split <;> rfl
    refine ⟨?_, ?_, caps⟩
    · rw [state]
      exact fun b => faults ▸ h.few b
    · rw [state]
      exact h.frames.congr threads faults

/-- A new capability, in a table of any length. -/
theorem setCap_ok (h : KernelOk t) (owner : SpdId) (cap : CapNo) (n : Nat) (late : Bool)
    (current : late = false → c.cnt = t.state.faults c.destination)
    (missed : late = true → c.cnt < t.state.faults c.destination) :
    KernelOk (t.noteCap owner cap c.destination late ((t.state.setNcaps owner n).setCap owner cap c)) :=
  ⟨h.few, h.frames.congr rfl rfl, h.caps.noteCap owner cap late rfl rfl current missed⟩

theorem step_ok {op : Op} (h : KernelOk t) (room : NoWrap t op) (run : step env t op = some t') : KernelOk t' := by
  cases op with
  | invoke =>
    obtain ⟨s', called, rfl⟩ := map_eq_some_iff.mp run
    exact invoke_ok h called
  | pop =>
    obtain ⟨⟨s', _⟩, called, rfl⟩ := map_eq_some_iff.mp run
    obtain ⟨frames, stable⟩ := pop_ok h.few h.frames called
    exact h.stable frames stable
  | switchThread =>
    obtain ⟨⟨s', _⟩, called, rfl⟩ := map_eq_some_iff.mp run
    obtain ⟨frames, stable⟩ := switchThread_ok h.few h.frames called
    exact h.stable frames stable
  | interrupt cpu next ip =>
    obtain ⟨s', called, rfl⟩ := map_eq_some_iff.mp run
    unfold interrupt at called
    split at called
    · contradiction
    split at called
    · contradiction
    split at called
    · contradiction
    split at called
    · contradiction
    · cases called
      exact h.stable ((h.frames.setIp _ ip).setCurr cpu next) (switched_stable ..)
  | ainvCompletion cpu prev =>
    obtain ⟨s', called, rfl⟩ := map_eq_some_iff.mp run
    unfold ainvCompletionSwitchTo at called
    split at called
    · cases called
      exact h.stable (h.frames.setCurr cpu prev) (setCurr_stable ..)
    · contradiction
  | faultCnt =>
    obtain ⟨⟨s', ret⟩, called, rfl⟩ := map_eq_some_iff.mp run
    exact faultCnt_ok h room called
  | createThread =>
    obtain ⟨s', called, rfl⟩ := map_eq_some_iff.mp run
    unfold createThread at called
    split at called
    · contradiction
    · cases called
      refine h.stable (h.frames.setThread _ ?_) (setThread_stable ..)
      intro f mem
      obtain rfl := List.mem_singleton.mp mem
      exact newFrame_ok h.few _ 0
  | reserveCaps =>
    cases run
    exact ⟨h.few, h.frames.congr rfl rfl, h.caps.past, h.caps.born, h.caps.current, h.caps.missed⟩
  | addStaticCap owner trusted cap entry =>
    obtain ⟨s', called, rfl⟩ := map_eq_some_iff.mp run
    unfold spdAddStaticCap at called
    split at called
    next past =>
      cases called
      rw [if_pos past]
      exact h
    next inside =>
      rw [if_neg inside]
      split at called
      · contradiction
      · cases called
        refine setCap_ok (c := ⟨trusted, entry, 0⟩) h owner cap _ _ ?_ of_decide_eq_true
        intro quiet
        have quiet := of_decide_eq_false quiet
        exact (Nat.eq_zero_of_not_pos quiet).symm
  | activateCap spd cap dspd entry =>
    cases run
    simp only [spdCapSetDest]
    split
    · exact h
    · have same : t.state.setNcaps spd (t.state.ncaps spd) = t.state := by
        simp [State.setNcaps]
      have ok := setCap_ok (c := ⟨dspd, entry, t.state.cnt dspd⟩) h spd (cap + 1) (t.state.ncaps spd) false
        (fun _ => h.few.cnt dspd) (by simp)
      rwa [same] at ok

/-! ## The guarantee -/

/-- An invocation through a capability that is in use and for which there is room looks at the count
of the capability. -/
theorem ipcWalkStaticCap_diverted {thd : ThdId} {th : Thread} {f : Frame} {rest : List Frame}
    (found : s.threads thd = some th) (stack : th.stack = f :: rest) (room : th.stack.length < maxServiceDepth)
    (inside : cap < s.ncaps f.spd) (valid : s.caps f.spd cap = some c) (ip : VAddr) :
    (∃ addr, (ipcWalkStaticCap env s thd cap ip).2 = .diverted addr) ↔ c.cnt < s.cnt c.destination := by
  have pushed : ipcPush s thd cap ip = .pushed (s.setThread thd
      { th with stack := newFrame s c.destination ip :: f.call s :: rest }) c := by
    rw [stack] at room
    simp only [ipcPush, found, stack, valid]
    rw [if_neg (Nat.not_le_of_lt inside), if_neg (Nat.not_le_of_lt room)]
  simp only [ipcWalkStaticCap, pushed, ipcFaultDetect, decide_eq_true_eq]
  split
  next behind =>
    refine iff_of_true ?_ behind
    split <;> exact ⟨_, rfl⟩
  next current =>
    refine iff_of_false ?_ current
    rintro ⟨addr, eq⟩
    contradiction

/-- As long as no counter wraps:
a thread is notified at most once of a fault for a frame; a return, into a component other than the
two that are never detected, and a switch resume a thread in a frame only if it was told of the latest
fault, if there was none since the frame was pushed, or since the thread made an invocation from it, or
if the frame was taken over by an upcall; an invocation is diverted if and only if the destination has
faulted since the capability was created and the client made its last update, or the count of the
capability was left behind then; and an update leaves those capabilities of the client to the server
behind that were so before, unless the one that it is made through was so itself. -/
theorem faults_notified_once (env : Env) (t : Tracked) (reached : Reachable (kernel env) NoWrap t) :
    (∀ thd th, t.state.threads thd = some th → ∀ f ∈ th.stack, f.note.told.Nodup) ∧
    (∀ cpu s' inv, pop env t.state cpu = some (s', .returned inv) →
      ∀ th f rest, s'.threads (s'.curr cpu) = some th → th.stack = f :: rest → f.spd ≠ 1 → f.spd ≠ 21 → Informed s' f) ∧
    (∀ cpu next ip s', switchThread env t.state cpu next ip = some (s', .switched) →
      ∀ th f rest, s'.threads next = some th → th.stack = f :: rest → Informed s' f) ∧
    (∀ thd th f rest cap c, t.state.threads thd = some th → th.stack = f :: rest →
      th.stack.length < maxServiceDepth → cap < t.state.ncaps f.spd → t.state.caps f.spd cap = some c →
      ∀ ip, (∃ addr, (ipcWalkStaticCap env t.state thd cap ip).2 = .diverted addr) ↔
        t.late f.spd cap = true ∨ t.since f.spd cap c < t.state.faults c.destination) ∧
    (∀ d cap s' ret c, capFaultUpdate t.state d cap = some (s', ret) → t.state.caps d cap = some c →
      ∀ i c', s'.caps d i = some c' → c'.destination = c.destination → 0 < i → i < s'.ncaps d →
        (c'.cnt = s'.cnt c.destination ↔ t.behind d cap c = true ∨ t.behind d i c' = false)) := by
  have h := reached.invariant KernelOk (kernelOk_init env) fun _ _ _ => step_ok
  refine ⟨?_, ?_, ?_, ?_, ?_⟩
  · intro thd th found f mem
    exact (h.frames thd th found f mem).distinct
  · intro cpu s' inv run th f rest found top noBoot noPgfault
    exact pop_returned h.few h.frames run found top noBoot noPgfault
  · intro cpu next ip s' run th f rest found top
    exact switchThread_switched h.few h.frames run found top
  · intro thd th f rest cap c found stack room inside valid ip
    rw [ipcWalkStaticCap_diverted found stack room inside valid ip, ← h.caps.behind_iff h.few valid, Tracked.behind,
      or_eq_true, decide_eq_true_eq]
  · intro d cap s' ret c run found i c' after same pos inside
    have cnt : s'.cnt c.destination = t.state.faults c.destination := by
      rw [State.cnt, (capFaultUpdate_same run).2.1]
      exact h.few.cnt _
    rw [cnt]
    rcases capFaultUpdate_cases h.few h.caps found run after with
      ⟨before, unreached⟩ | ⟨old, -, -, -, -, behind, -, -, copy⟩
    · have ncaps := (capFaultUpdate_same run).2.2.1
      have level : t.behind d cap c = false := by
        rw [← Bool.not_eq_true]
        exact fun behind => unreached ⟨rfl, same⟩ ⟨behind, pos, ncaps ▸ inside⟩
      have iff := h.caps.behind_iff h.few before
      have le := h.caps.cnt_le before
      rw [h.few.cnt, same] at iff
      rw [same] at le
      constructor
      · intro copy
        rw [← Bool.not_eq_true (t.behind d i c'), iff]
        exact .inr (by omega)
      · rintro (behind | current)
        · simp [level] at behind
        · rw [← Bool.not_eq_true, iff] at current
          omega
    · exact iff_of_true copy (.inl behind)

/-- Every component has its second capability for notifications. -/
def secondHandles : Env := ⟨fun _ => true, fun _ => 1, fun _ => none, fun _ => 2, fun _ => 8⟩

/-- Component 5 has capabilities to the server 7 and to the handler 9, the server faults, and component 5
gets another capability to it. -/
theorem faulted_server_diverts : ∃ t, Reachable (kernel secondHandles) NoWrap t ∧ t.state.faults 7 = 1 ∧
      (∃ addr, (ipcWalkStaticCap secondHandles t.state 0 1 50).2 = .diverted addr) ∧
      ¬ ∃ addr, (ipcWalkStaticCap secondHandles t.state 0 3 50).2 = .diverted addr := by
  refine exec_reaches
    [.reserveCaps 5 4, .activateCap 5 0 7 100, .activateCap 5 1 9 900, .createThread 0 5,
      .faultCnt 9 .spdFaultTrigger 7 0, .activateCap 5 2 7 100]
    (fun t => t.state.faults 7 = 1 ∧
      t.state.threads 0 = some ⟨[⟨5, 0, 0, ⟨0, [], none, false⟩⟩], 0⟩ ∧ t.state.ncaps 5 = 4 ∧
      (t.state.caps 5 1 = some ⟨7, 100, 0⟩ ∧ t.since 5 1 ⟨7, 100, 0⟩ = 0) ∧
      t.state.caps 5 3 = some ⟨7, 100, 1⟩ ∧ t.since 5 3 ⟨7, 100, 1⟩ = 1 ∧ t.late 5 3 = false) (by decide) ?_
  rintro t reached ⟨fault, thread, ncaps, ⟨old, before⟩, new, after, level⟩
  have diverted := (faults_notified_once secondHandles t reached).2.2.2.1 0
  refine ⟨fault, ?_, ?_⟩
  · exact (diverted _ _ _ 1 _ thread rfl (by decide) (by rw [ncaps]; decide) old 50).mpr (.inr (by rw [before, fault]; decide))
  · rw [diverted _ _ _ 3 _ thread rfl (by decide) (by rw [ncaps]; decide) new 50, level, after, fault]
    decide

/-- A thread of component 21 is in component 5 when component 21 faults, and returns without being
told. -/
theorem return_not_notified : ¬ ∀ t, Reachable (kernel secondHandles) NoWrap t → ∀ cpu s' inv,
      pop secondHandles t.state cpu = some (s', .returned inv) →
      ∀ th f rest, s'.threads (s'.curr cpu) = some th → th.stack = f :: rest →
        f.note.pushed = s'.faults f.spd ∨ s'.faults f.spd ∈ f.note.told := by
  intro claim
  obtain ⟨t, run, final⟩ := exec_ends (kernel secondHandles) NoWrap
    [.reserveCaps 21 3, .activateCap 21 0 5 100, .activateCap 21 1 9 900, .createThread 0 21,
      .invoke 0 1 50, .faultCnt 9 .spdFaultTrigger 21 0]
    (fun t => (pop secondHandles t.state 0).any fun (s', popped) =>
      match popped with
      | .returned _ => decide (s'.faults 21 = 1 ∧
          s'.threads (s'.curr 0) = some ⟨[⟨21, 0, 0, ⟨0, [], some 0, false⟩⟩], 0⟩)
      | _ => false) (by decide)
  obtain ⟨⟨s', popped⟩, returns, after⟩ := any_eq_true _ _ |>.mp final
  cases popped with
  | returned inv =>
    obtain ⟨fault, thread⟩ := of_decide_eq_true after
    have told := claim t ⟨_, run⟩ 0 s' inv returns _ _ _ thread rfl
    simp [fault] at told
  | terminated | faultRegs | notified => contradiction

end SuperGlue.Guarantees.FaultNotification
