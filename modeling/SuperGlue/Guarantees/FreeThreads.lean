import SuperGlue.Lib.LinkedWords
import SuperGlue.Lib.Transition
import SuperGlue.Source.Kernel.Threads

/-!
# The list of free threads

`thd_free_all` takes a thread without a successor for one in use, which the last free thread is not. `thd_alloc`
reads the successor of the first free thread before it knows that there is one. As long as threads are allocated
only while one is free, and all are freed at once only while none is, the list is that of the free threads and every
page that was got for a thread is put back once.
-/
namespace SuperGlue.Guarantees.FreeThreads
open Option Function List Lib.LinkedWords Lib.Transition Source.Kernel.Threads

def pointers : Encoding Nat (Option Nat) := ⟨some, none, fun _ _ => some.inj, fun _ => nofun⟩

structure Observed where
  st : State
  /-- The threads that `thd_alloc` has returned and that were not freed since, with their pages. -/
  live : Nat → Option Page
  /-- The pages that were got from the pool and put back, each with its thread. -/
  got : List (Nat × Page)
  put : List (Nat × Page)

inductive Call where
  | alloc (page : Option Page)
  | free (thd : Nat)
  | freeAll
  deriving DecidableEq, Repr

variable (o : Observed)

def allocated (page : Option Page) : State × Option Nat → Observed
  | (st, none) => { o with st := st }
  | (st, some thd) => ⟨st, update o.live thd page, o.got ++ page.toList.map (thd, ·), o.put⟩

def freed (thd : Nat) : Observed :=
  let (st, page) := thdFree o.st (some thd)
  ⟨st, update o.live thd none, o.got, o.put ++ page.toList.map (thd, ·)⟩

def perform : Call → Option Observed
  | .alloc page => (thdAlloc o.st page).map (allocated o page)
  | .free thd => if o.live thd = none then none else some (freed o thd)
  | .freeAll =>
    let (st, pages) := thdFreeAll o.st
    some ⟨st, fun _ => none, o.got, o.put ++ pages⟩

def kernelThreads : System Observed Call := ⟨⟨thdInitAll, fun _ => none, [], []⟩, perform⟩

/-- The condition on a call. -/
def Careful : Call → Prop
  | .alloc _ => o.st.freelistHead ≠ none
  | .free _ => True
  | .freeAll => o.st.freelistHead = none

instance : DecidableRel Careful := by
  intro o call
  unfold Careful
  split <;> infer_instance

/-- The pages in a log that belong to a thread. -/
def pagesOf (thd : Nat) (log : List (Nat × Page)) : List Page :=
  log.filterMap fun (t, page) => if t = thd then some page else none

theorem pagesOf_append (thd t : Nat) (log : List (Nat × Page)) (page : Page) :
    pagesOf t (log ++ [(thd, page)]) = pagesOf t log ++ if t = thd then [page] else [] := by
  rw [pagesOf, pagesOf]
  by_cases same : t = thd <;> simp [same, eq_comm]

/-- What is kept of a thread. -/
structure Kept (o : Observed) (free : List Nat) (t : Nat) : Prop where
  free : t ∈ free ↔ t < maxNumThreads ∧ o.live t = none
  live : ∀ page, o.live t = some page → t < maxNumThreads ∧ o.st.threads t = ⟨none, some page⟩
  pages : pagesOf t o.got = pagesOf t o.put ++ (o.live t).toList

structure Listed (o : Observed) (free : List Nat) : Prop where
  chain : Chain pointers (fun i => (o.st.threads i).freelistNext) o.st.freelistHead free
  kept : ∀ t, Kept o free t

variable {o o' : Observed} {free free' : List Nat} {thd t : Nat} {page : Page}

theorem Kept.frame (h : Kept o free t) (listed : t ∈ free' ↔ t ∈ free) (live : o'.live t = o.live t)
    (thread : o'.st.threads t = o.st.threads t) (got : pagesOf t o'.got = pagesOf t o.got)
    (put : pagesOf t o'.put = pagesOf t o.put) : Kept o' free' t := by
  constructor
  · rw [listed, live]
    exact h.free
  · rw [live, thread]
    exact h.live
  · rw [got, put, live]
    exact h.pages

theorem init_chain (k i : Nat) (rest : i + k = maxNumThreads) : Chain pointers
    (fun i => (thdInitAll.threads i).freelistNext) (if k = 0 then none else some i) (range' i k) := by
  induction k generalizing i with
  | zero => rfl
  | succ k ih =>
    refine ⟨rfl, ?_⟩
    have last : i = maxNumThreads - 1 ↔ k = 0 := by omega
    simp only [thdInitAll, last]
    exact ih (i + 1) (by omega)

theorem init_listed : Listed kernelThreads.init (range' 0 maxNumThreads) := by
  refine ⟨init_chain maxNumThreads 0 (Nat.zero_add _), fun t => ⟨?_, nofun, rfl⟩⟩
  simp [kernelThreads]

theorem thdAlloc_none {s : State} (first : s.freelistHead = some thd) : thdAlloc s none = some (s, none) := by
  obtain ⟨_, _⟩ := s
  cases first
  rfl

/-- The first free thread is allocated. -/
theorem Listed.alloc (h : Listed o (thd :: free)) (page : Page) :
    ∃ answer, thdAlloc o.st (some page) = some answer ∧ Listed (allocated o (some page) answer) free := by
  obtain ⟨first, rest⟩ := h.chain
  obtain ⟨off, -⟩ := nodup_cons.mp (chain_nodup h.chain)
  obtain ⟨below, unused⟩ := (h.kept thd).free.mp mem_cons_self
  refine ⟨_, by rw [thdAlloc, first]; rfl, chain_congr rest fun t mem => ?_, fun t => ?_⟩
  · have other : t ≠ thd := fun same => off (same ▸ mem)
    exact congrArg Thread.freelistNext (update_of_ne other ..)
  by_cases same : t = thd
  · subst same
    have pages := (h.kept t).pages
    constructor
    · simp [allocated, off]
    · simp [allocated, below]
    · simpa [allocated, pagesOf_append, unused] using pages
  · apply (h.kept t).frame
    · simp [same]
    · exact update_of_ne same ..
    · exact update_of_ne same ..
    · simp [allocated, pagesOf_append, same]
    · rfl

variable (h : Listed o free)
include h

theorem Listed.freed (live : o.live thd = some page) :
    Listed (freed o thd) (thd :: free) ∧ (FreeThreads.freed o thd).put = o.put ++ [(thd, page)] := by
  obtain ⟨below, thread⟩ := (h.kept thd).live page live
  have off : thd ∉ free := by
    intro mem
    nomatch live.symm.trans ((h.kept thd).free.mp mem).2
  have put : (FreeThreads.freed o thd).put = o.put ++ [(thd, page)] := by
    simp [FreeThreads.freed, thdFree, thread]
  refine ⟨⟨chain_congr (chain_push h.chain off) fun t _ => ?_, fun t => ?_⟩, put⟩
  · simp only [FreeThreads.freed, thdFree, update_apply]
    split <;> rfl
  by_cases same : t = thd
  · subst same
    have pages := (h.kept t).pages
    constructor
    · simp [FreeThreads.freed, below]
    · simp [FreeThreads.freed]
    · rw [put, pagesOf_append, if_pos rfl]
      simpa [FreeThreads.freed, live] using pages
  · apply (h.kept t).frame
    · simp [same]
    · exact update_of_ne same ..
    · exact update_of_ne same ..
    · rfl
    · simp [put, pagesOf_append, same]

/-- The loop at threads that are in use. -/
theorem Listed.freeLoop {rest : List Nat} (nodup : rest.Nodup) (used : ∀ t ∈ rest, o.live t ≠ none)
    : ∃ free', Listed ⟨(freeLoop rest o.st).1, fun t => if t ∈ rest then none else o.live t, o.got,
      o.put ++ (freeLoop rest o.st).2⟩ free' := by
  induction rest generalizing o free with
  | nil => exact ⟨free, by simpa [Source.Kernel.Threads.freeLoop] using h⟩
  | cons i rest ih =>
    obtain ⟨off, nodup⟩ := nodup_cons.mp nodup
    obtain ⟨page, live⟩ := ne_none_iff_exists'.mp (used i mem_cons_self)
    obtain ⟨after, put⟩ := h.freed live
    have still : ∀ t ∈ rest, (FreeThreads.freed o i).live t ≠ none := by
      intro t mem
      have other : t ≠ i := fun same => off (same ▸ mem)
      exact (update_of_ne other ..).trans_ne (used t (mem_cons_of_mem i mem))
    obtain ⟨free', done⟩ := ih after nodup still
    refine ⟨free', ?_⟩
    have lives : (fun t => if t ∈ i :: rest then none else o.live t) =
        fun t => if t ∈ rest then none else (FreeThreads.freed o i).live t := by
      funext t
      by_cases same : t = i <;> simp [same, FreeThreads.freed]
    have thread := ((h.kept i).live page live).2
    rw [lives]
    simpa [Source.Kernel.Threads.freeLoop, thread, thdFree, FreeThreads.freed] using done

theorem perform_listed {call : Call} (careful : Careful o call)
    (next : perform o call = some o') : ∃ free', Listed o' free' := by
  cases call with
  | alloc page =>
    cases free with
    | nil => exact absurd h.chain careful
    | cons thd free =>
      obtain ⟨answer, run, rfl⟩ := map_eq_some_iff.mp next
      cases page with
      | none =>
        cases (thdAlloc_none h.chain.1).symm.trans run
        exact ⟨_, h⟩
      | some page =>
        obtain ⟨answer', run', after⟩ := h.alloc page
        cases run'.symm.trans run
        exact ⟨free, after⟩
  | free thd =>
    obtain ⟨used, next⟩ := ite_none_left_eq_some.mp next
    cases next
    obtain ⟨page, live⟩ := ne_none_iff_exists'.mp used
    exact ⟨_, (h.freed live).1⟩
  | freeAll =>
    cases next
    have empty : free = [] := chain_nil_head (careful ▸ h.chain)
    subst empty
    obtain ⟨free', after⟩ := h.freeLoop (nodup_range) fun t mem unused =>
      not_mem_nil ((h.kept t).free.mpr ⟨mem_range.mp mem, unused⟩)
    have lives : (fun t => if t ∈ range maxNumThreads then none else o.live t) = fun _ => none := by
      funext t
      refine ite_eq_left_iff.mpr fun outside => eq_none_iff_forall_ne_some.mpr fun page live => ?_
      exact outside (mem_range.mpr ((h.kept t).live page live).1)
    rw [lives] at after
    exact ⟨free', after⟩

omit h

/-- In every run of careful calls the list has the threads that are not allocated, once each, an allocation without
a page returns null and changes nothing, and the pages that were got for a thread are those put back and the one it
has. -/
theorem free_threads (reached : Reachable kernelThreads Careful o) :
    (∃ free, Chain pointers (fun i => (o.st.threads i).freelistNext) o.st.freelistHead free ∧ free.Nodup ∧
      ∀ t, t ∈ free ↔ t < maxNumThreads ∧ o.live t = none) ∧
    (∀ page, Careful o (.alloc page) → ∃ st thd, thdAlloc o.st page = some (st, thd) ∧
      (page = none → thd = none ∧ st = o.st)) ∧ ∀ t, pagesOf t o.got = pagesOf t o.put ++ (o.live t).toList := by
  obtain ⟨free, h⟩ := reached.invariant (fun o => ∃ free, Listed o free) ⟨_, init_listed⟩
    fun o call o' ⟨free, h⟩ careful next => perform_listed h careful next
  refine ⟨⟨free, h.chain, chain_nodup h.chain, fun t => (h.kept t).free⟩, fun page careful => ?_,
    fun t => (h.kept t).pages⟩
  obtain ⟨thd, first⟩ := ne_none_iff_exists'.mp careful
  cases page with
  | none => exact ⟨_, _, thdAlloc_none first, fun _ => ⟨rfl, rfl⟩⟩
  | some page => exact ⟨_, _, by rw [thdAlloc, first, map_some], nofun⟩

/-- Two threads are allocated, one without a page, and one is freed. -/
theorem freed_thread_listed : ∃ o, Run kernelThreads Careful [.alloc (some 7), .alloc none, .alloc (some 8), .free 0] o ∧
    (∃ free, Chain pointers (fun i => (o.st.threads i).freelistNext) o.st.freelistHead free ∧ free.Nodup ∧
      ∀ t, t ∈ free ↔ t < maxNumThreads ∧ o.live t = none) ∧ o.live 1 = some 8 ∧ pagesOf 0 o.put = [7] := by
  exact exec_shows (fun o => o.live 1 = some 8 ∧ pagesOf 0 o.put = [7]) (by decide +kernel)
    fun o run ends => ⟨(free_threads ⟨_, run⟩).1, ends⟩

theorem chain_endless {word : Nat → Option Nat} {n i : Nat} (closed : ∀ i < n, ∃ j < n, word i = some j)
    (inside : i < n) (cells : List Nat) : ¬ Chain pointers word (some i) cells := by
  induction cells generalizing i with
  | nil => exact nofun
  | cons a cells ih =>
    rintro ⟨⟨⟩, rest⟩
    obtain ⟨j, below, next⟩ := closed _ inside
    rw [next] at rest
    exact ih below rest

/-- Freeing all threads at the start makes the list a cycle. -/
theorem free_list_endless : ∃ o, Run kernelThreads anyStep [.freeAll] o ∧
    ∀ free, ¬ Chain pointers (fun i => (o.st.threads i).freelistNext) o.st.freelistHead free := by
  refine exec_shows (fun o => o.st.freelistHead = some 127 ∧ ∀ i : Nat, i < 128 →
    ∃ j ∈ (o.st.threads i).freelistNext, j < 128) (by decide +kernel) fun o _ ⟨head, ends⟩ free => ?_
  rw [head]
  refine chain_endless (n := 128) (fun i below => ?_) (by decide) free
  obtain ⟨j, next, inside⟩ := ends i below
  exact ⟨j, inside, next⟩

end SuperGlue.Guarantees.FreeThreads
