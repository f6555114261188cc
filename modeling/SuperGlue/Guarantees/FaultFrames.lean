import SuperGlue.Source.Kernel.Invocation

/-!
# The counts in the frames of the invocation stacks

The count of a frame is the number of the last fault that its thread was notified of for the frame,
unless there was none since the frame was pushed or since the thread last made an invocation from it.
An upcall that takes over a base frame is the exception.
-/
namespace SuperGlue.Guarantees.FaultFrames
open Option List Source.Kernel.Invocation

/-- Where the count of a frame comes from. -/
structure FrameOk (s : State) (f : Frame) : Prop where
  distinct : f.note.told.Nodup
  upTo : ∀ n ∈ f.note.told, n ≤ f.cnt ∧ n ≤ s.faults f.spd
  source : f.note.reused = true ∨ (f.cnt ≤ s.faults f.spd ∧
    (f.cnt = f.note.pushed ∨ f.cnt ∈ f.note.told ∨ f.note.called = some f.cnt))

def ThreadsOk (s : State) : Prop :=
  ∀ thd t, s.threads thd = some t → ∀ f ∈ t.stack, FrameOk s f

/-- No counter has wrapped. -/
def Few (s : State) : Prop := ∀ d, s.faults d < wordSize

/-- What invocations, returns and switches leave as it is. -/
structure Stable (s s' : State) : Prop where
  faults : s'.faults = s.faults
  caps : s'.caps = s.caps
  ncaps : s'.ncaps = s.ncaps

variable {s s' : State} {f : Frame} {t : Thread} {thd : ThdId} {env : Env}

theorem Few.cnt (few : Few s) (d : SpdId) : s.cnt d = s.faults d := Nat.mod_eq_of_lt (few d)

theorem Stable.refl (s : State) : Stable s s := ⟨rfl, rfl, rfl⟩

theorem Stable.trans {s'' : State} (h : Stable s s') (h' : Stable s' s'') : Stable s s'' :=
  ⟨h'.faults.trans h.faults, h'.caps.trans h.caps, h'.ncaps.trans h.ncaps⟩

theorem Stable.few (h : Stable s s') (few : Few s) : Few s' := by
  intro d
  rw [h.faults]
  exact few d

theorem Stable.cnt (h : Stable s s') (d : SpdId) : s'.cnt d = s.cnt d := by
  rw [State.cnt, h.faults, State.cnt]

/-! ## One frame -/

theorem FrameOk.mono (ok : FrameOk s f) (more : ∀ d, s.faults d ≤ s'.faults d) : FrameOk s' f := by
  refine ⟨ok.distinct, ?_, ?_⟩
  · intro n told
    obtain ⟨known, past⟩ := ok.upTo n told
    exact ⟨known, Nat.le_trans past (more f.spd)⟩
  · rcases ok.source with reused | ⟨past, known⟩
    · exact .inl reused
    · exact .inr ⟨Nat.le_trans past (more f.spd), known⟩

theorem newFrame_ok (few : Few s) (spd : SpdId) (ip : VAddr) : FrameOk s (newFrame s spd ip) := by
  refine ⟨nodup_nil, ?_, .inr ⟨Nat.le_of_eq (few.cnt spd), .inl (few.cnt spd)⟩⟩
  exact fun n told => absurd told not_mem_nil

theorem tell_ok (few : Few s) (ok : FrameOk s f) (behind : f.cnt < s.cnt f.spd) : FrameOk s (f.tell s) := by
  have now := few.cnt f.spd
  refine ⟨?_, ?_, .inr ⟨Nat.le_of_eq now, .inr (.inl ?_)⟩⟩
  · refine nodup_cons.mpr ⟨?_, ok.distinct⟩
    intro told
    have known := (ok.upTo _ told).1
    omega
  · intro n told
    change n ≤ s.cnt f.spd ∧ n ≤ s.faults f.spd
    rcases mem_cons.mp told with rfl | earlier
    · omega
    · have known := ok.upTo n earlier
      omega
  · rw [Frame.tell, now]
    exact mem_cons_self

theorem call_ok (few : Few s) (ok : FrameOk s f) : FrameOk s (f.call s) := by
  have now := few.cnt f.spd
  refine ⟨ok.distinct, ?_, .inr ⟨Nat.le_of_eq now, .inr (.inr ?_)⟩⟩
  · intro n told
    have known := (ok.upTo n told).2
    change n ≤ s.cnt f.spd ∧ n ≤ s.faults f.spd
    omega
  · rw [Frame.call, now]

/-- A frame that is not behind: there was no fault since it was pushed, since the notification or
since the last invocation from it. -/
def Informed (s : State) (f : Frame) : Prop :=
  f.note.reused = true ∨ f.note.called = some (s.faults f.spd) ∨ f.note.pushed = s.faults f.spd ∨
    s.faults f.spd ∈ f.note.told

theorem informed_of_current (few : Few s) (ok : FrameOk s f) (current : ¬ f.cnt < s.cnt f.spd) : Informed s f := by
  rcases ok.source with reused | ⟨past, known⟩
  · exact .inl reused
  have now : f.cnt = s.faults f.spd := by
    rw [few.cnt] at current
    omega
  rw [now] at known
  rcases known with pushed | told | called
  · exact .inr (.inr (.inl pushed.symm))
  · exact .inr (.inr (.inr told))
  · exact .inr (.inl called)

/-! ## Threads -/

theorem FrameOk.congr (faults : s'.faults = s.faults) : FrameOk s' f ↔ FrameOk s f := by
  constructor <;> exact fun ok => ok.mono fun d => Nat.le_of_eq (by rw [faults])

theorem ThreadsOk.congr (ok : ThreadsOk s) (threads : s'.threads = s.threads)
    (faults : s'.faults = s.faults) : ThreadsOk s' := by
  intro thd t found f mem
  rw [FrameOk.congr faults]
  exact ok thd t (threads ▸ found) f mem

theorem setThread_stable (s : State) (thd : ThdId) (t : Thread) : Stable s (s.setThread thd t) :=
  ⟨rfl, rfl, rfl⟩

theorem ThreadsOk.setThread (ok : ThreadsOk s) (thd : ThdId) (frames : ∀ f ∈ t.stack, FrameOk s f) :
    ThreadsOk (s.setThread thd t) := by
  intro thd' t' found f mem
  rw [FrameOk.congr (setThread_stable s thd t).faults]
  by_cases same : thd' = thd
  · subst same
    obtain rfl : t = t' := by simpa [State.setThread] using found
    exact frames f mem
  · have found : s.threads thd' = some t' := by simpa [State.setThread, same] using found
    exact ok thd' t' found f mem

theorem setIp_stable (s : State) (thd : ThdId) (ip : VAddr) : Stable s (s.setIp thd ip) := by
  unfold State.setIp
  split
  · exact .refl s
  · exact setThread_stable ..

theorem ThreadsOk.setIp (ok : ThreadsOk s) (thd : ThdId) (ip : VAddr) : ThreadsOk (s.setIp thd ip) := by
  unfold State.setIp
  split
  · exact ok
  next t found => exact ok.setThread thd (ok thd t found)

theorem setCurr_stable (s : State) (cpu : CpuId) (thd : ThdId) : Stable s (s.setCurr cpu thd) :=
  ⟨rfl, rfl, rfl⟩

theorem ThreadsOk.setCurr (ok : ThreadsOk s) (cpu : CpuId) (thd : ThdId) :
    ThreadsOk (s.setCurr cpu thd) := ok.congr rfl rfl

theorem thdRetUpcall_ok (ok : ThreadsOk s) (env : Env) (thd : ThdId) (t : Thread) :
    ThreadsOk (thdRetUpcall env s thd t) ∧ Stable s (thdRetUpcall env s thd t) := by
  unfold thdRetUpcall
  split
  · exact ⟨ok, .refl s⟩
  next base _ =>
    refine ⟨ok.setThread thd ?_, setThread_stable ..⟩
    intro f mem
    obtain rfl := mem_singleton.mp mem
    exact ⟨nodup_nil, fun _ told => absurd told not_mem_nil, .inl rfl⟩

/-! ## Invocations and notifications -/

variable {cap : CapNo} {ip : VAddr}

/-- What an invocation has done when it looks for a fault. -/
theorem ipcPush_cases {c : Cap} (run : ipcPush s thd cap ip = .pushed s' c) :
    ∃ t f rest, s.threads thd = some t ∧ t.stack = f :: rest ∧ cap < s.ncaps f.spd ∧ s.caps f.spd cap = some c ∧
      s' = s.setThread thd { t with stack := newFrame s c.destination ip :: f.call s :: rest } := by
  unfold ipcPush at run
  split at run
  · contradiction
  rename_i t found
  split at run
  · contradiction
  rename_i f rest stack
  split at run
  · contradiction
  rename_i inside
  split at run
  · contradiction
  next c' valid =>
    split at run
    · contradiction
    · cases run
      exact ⟨t, f, rest, found, stack, Nat.lt_of_not_le inside, valid, rfl⟩

section
variable (few : Few s) (ok : ThreadsOk s)
include few ok

theorem ipcPush_ok {c : Cap} (run : ipcPush s thd cap ip = .pushed s' c) : ThreadsOk s' ∧ Stable s s' := by
  obtain ⟨t, f, rest, found, stack, _, _, rfl⟩ := ipcPush_cases run
  have frames := stack ▸ ok thd t found
  refine ⟨ok.setThread thd ?_, setThread_stable ..⟩
  intro g member
  rcases mem_cons.mp member with rfl | member
  · exact newFrame_ok few ..
  · rcases mem_cons.mp member with rfl | member
    · exact call_ok few (frames f mem_cons_self)
    · exact frames g (mem_cons_of_mem f member)

theorem faultIpcInvoke_ok {fuel : Nat} {dest : Option SpdId} {addr : VAddr}
    (run : faultIpcInvoke env fuel s thd dest = some (s', addr)) : ThreadsOk s' ∧ Stable s s' := by
  induction fuel generalizing s s' dest addr with
  | zero => contradiction
  | succ fuel ih =>
    unfold faultIpcInvoke at run
    split at run
    · contradiction
    rename_i t _
    split at run
    · contradiction
    split at run
    · cases run
      exact thdRetUpcall_ok ok env thd t
    split at run
    · cases run
      exact ⟨ok.setIp thd 0, setIp_stable ..⟩
    · contradiction
    rename_i s1 c pushed
    obtain ⟨ok1, stable1⟩ := ipcPush_ok few ok pushed
    split at run
    · obtain ⟨⟨s2, a⟩, later, eq⟩ := map_eq_some_iff.mp run
      cases eq
      obtain ⟨ok2, stable2⟩ := ih (stable1.few few) ok1 later
      exact ⟨ok2.setIp thd _, (stable1.trans stable2).trans (setIp_stable ..)⟩
    · cases run
      exact ⟨ok1.setIp thd c.entry, stable1.trans (setIp_stable ..)⟩

theorem ipcWalkStaticCap_ok {answer : Answer}
    (run : ipcWalkStaticCap env s thd cap ip = (s', answer)) : ThreadsOk s' ∧ Stable s s' := by
  unfold ipcWalkStaticCap at run
  split at run
  · cases run
    exact ⟨ok, .refl s⟩
  · cases run
    exact ⟨ok, .refl s⟩
  rename_i s1 c pushed
  obtain ⟨ok1, stable1⟩ := ipcPush_ok few ok pushed
  split at run
  · split at run
    · cases run
      exact ⟨ok1, stable1⟩
    next s2 a notified =>
      cases run
      obtain ⟨ok2, stable2⟩ := faultIpcInvoke_ok (stable1.few few) ok1 notified
      exact ⟨ok2, stable1.trans stable2⟩
  · cases run
    exact ⟨ok1, stable1⟩

end

/-! ## Returns and switches -/

variable {cpu : CpuId} {rest : List Frame} {next : ThdId}

variable (few : Few s)
include few

/-- A frame that is behind is told of the faults, and the thread notified. -/
theorem notify_ok {s1 : State} {fuel : Nat} {dest : Option SpdId} {addr : VAddr} (stable : Stable s s1)
    (ok : ThreadsOk s1) (frames : ∀ g ∈ f :: rest, FrameOk s g) (behind : f.cnt < s.cnt f.spd)
    (notified : faultIpcInvoke env fuel (s1.setThread next { t with stack := f.tell s :: rest }) next dest =
      some (s', addr)) : ThreadsOk s' ∧ Stable s s' := by
  have told : ThreadsOk (s1.setThread next { t with stack := f.tell s :: rest }) := by
    refine ok.setThread next ?_
    intro g member
    rw [FrameOk.congr stable.faults]
    rcases mem_cons.mp member with rfl | member
    · exact tell_ok few (frames f mem_cons_self) behind
    · exact frames g (mem_cons_of_mem f member)
  have stable' := stable.trans (setThread_stable _ next { t with stack := f.tell s :: rest })
  obtain ⟨ok2, stable2⟩ := faultIpcInvoke_ok (stable'.few few) told notified
  exact ⟨ok2, stable'.trans stable2⟩

theorem pop_ok {popped : Popped} (ok : ThreadsOk s)
    (run : pop env s cpu = some (s', popped)) : ThreadsOk s' ∧ Stable s s' := by
  unfold pop at run
  split at run
  · contradiction
  rename_i t found
  split at run
  · contradiction
  · cases run
    exact thdRetUpcall_ok ok env _ t
  rename_i inv f rest stack
  have frames : ∀ g ∈ f :: rest, FrameOk s g := fun g mem =>
    ok _ t found g (stack ▸ mem_cons_of_mem inv mem)
  have back : ThreadsOk (s.setThread (s.curr cpu) { t with stack := f :: rest }) := ok.setThread _ frames
  split at run
  · cases run
    exact ⟨back, setThread_stable ..⟩
  split at run
  next detected =>
    obtain ⟨⟨s2, a⟩, notified, eq⟩ := map_eq_some_iff.mp run
    cases eq
    have behind : f.cnt < s.cnt f.spd := by
      unfold popFaultDetect at detected
      split at detected
      · contradiction
      · simpa using detected
    exact notify_ok few (.refl s) ok frames behind notified
  · cases run
    exact ⟨back, setThread_stable ..⟩

/-- A return that resumes the thread in a frame does so in one that is not behind. -/
theorem pop_returned {inv : Frame} (ok : ThreadsOk s)
    (run : pop env s cpu = some (s', .returned inv)) (found : s'.threads (s'.curr cpu) = some t)
    (top : t.stack = f :: rest) (noBoot : f.spd ≠ 1) (noPgfault : f.spd ≠ 21) : Informed s' f := by
  obtain ⟨ok', stable⟩ := pop_ok few ok run
  refine informed_of_current (stable.few few) (ok' _ t found f (top ▸ mem_cons_self)) ?_
  unfold pop at run
  split at run
  · contradiction
  rename_i t0 _
  split at run
  · contradiction
  · cases run
  rename_i _ g below _
  split at run
  · cases run
  split at run
  · obtain ⟨_, _, eq⟩ := map_eq_some_iff.mp run
    cases eq
  rename_i undetected
  cases run
  have same : { t0 with stack := g :: below } = t := by simpa [State.setThread] using found
  subst same
  obtain ⟨rfl, rfl⟩ := List.cons.inj top
  rw [stable.cnt]
  simpa [popFaultDetect, noBoot, noPgfault] using undetected

omit few in
theorem switched_stable (s : State) (cpu : CpuId) (next : ThdId) (ip : VAddr) :
    Stable s ((s.setIp (s.curr cpu) ip).setCurr cpu next) :=
  (setIp_stable ..).trans (setCurr_stable ..)

theorem switchThread_ok {outcome : Switched} (ok : ThreadsOk s)
    (run : switchThread env s cpu next ip = some (s', outcome)) : ThreadsOk s' ∧ Stable s s' := by
  have saved : ThreadsOk ((s.setIp (s.curr cpu) ip).setCurr cpu next) := (ok.setIp _ ip).setCurr cpu next
  have stable := switched_stable s cpu next ip
  unfold switchThread at run
  split at run
  · contradiction
  split at run
  · contradiction
  rename_i t found
  split at run
  · contradiction
  rename_i f rest stack
  split at run
  next detected =>
    obtain ⟨⟨s2, a⟩, notified, eq⟩ := map_eq_some_iff.mp run
    cases eq
    have behind : f.cnt < s.cnt f.spd := by simpa [switchThdFaultDetect] using detected
    exact notify_ok few stable saved (stack ▸ ok next t found) behind notified
  · cases run
    exact ⟨saved, stable⟩

/-- A switch that resumes a thread in a frame does so in one that is not behind. -/
theorem switchThread_switched (ok : ThreadsOk s) (run : switchThread env s cpu next ip = some (s', .switched))
    (found : s'.threads next = some t) (top : t.stack = f :: rest) : Informed s' f := by
  obtain ⟨ok', stable⟩ := switchThread_ok few ok run
  refine informed_of_current (stable.few few) (ok' _ t found f (top ▸ mem_cons_self)) ?_
  unfold switchThread at run
  split at run
  · contradiction
  rename_i other
  split at run
  · contradiction
  rename_i t0 found0
  split at run
  · contradiction
  rename_i g below stack
  split at run
  · obtain ⟨_, _, eq⟩ := map_eq_some_iff.mp run
    cases eq
  rename_i undetected
  cases run
  have kept : (s.setIp (s.curr cpu) ip).threads next = s.threads next := by
    unfold State.setIp
    split
    · rfl
    · simp [State.setThread, other]
  obtain rfl : t0 = t := by
    have found : (s.setIp (s.curr cpu) ip).threads next = some t := found
    rw [kept, found0] at found
    exact some.inj found
  obtain ⟨rfl, rfl⟩ := List.cons.inj (stack.symm.trans top)
  rw [stable.cnt]
  simpa [switchThdFaultDetect] using undetected

omit few

end SuperGlue.Guarantees.FaultFrames
