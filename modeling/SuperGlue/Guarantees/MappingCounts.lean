import SuperGlue.Lib.FiniteMap
import SuperGlue.Lib.Tally
import SuperGlue.Source.MemMgr.Mappings

/-!
# Lookup and reference counts of the mapping database

The part of the database that does not depend on the mapping tree: the page vectors find exactly the
live mappings, and the counts of components and frames agree with them. Inside a request a frame may
be off the free list although nothing maps it yet, and a component may be counted once more than it
has mappings; the invariants name both.
-/
namespace SuperGlue.Guarantees.MappingCounts
open Finset List Function Option Lib.FiniteMap Lib.LinkedWords Lib.Ring Lib.Tally Source.MemMgr.Frames Source.MemMgr.Mappings

/-! ## Frames -/

/-- The free list holds exactly the frames without mappings, except those that a request in progress
has `out`. -/
def FreeFrames (t : FrameTable) (out : List Nat) : Prop :=
  ∃ l, FreeList t l ∧ ∀ f, f < cosMaxMemory → (f ∈ l ↔ (t.frames f).nmaps = 0 ∧ f ∉ out)

theorem freeFrames_init : FreeFrames frameInit [] := by
  refine ⟨_, frameInit_freeList, ?_⟩
  intro f bound
  simpa [frameInit] using bound

variable {t : FrameTable} {out : List Nat} {g : Nat} {out' : List Nat}

theorem freeFrames_pop {t' : FrameTable} (free : FreeFrames t out) (popped : frameAlloc t = .ok (some g, t')) :
    FreeFrames t' (g :: out) ∧ g < cosMaxMemory ∧ g ∉ out ∧ (t.frames g).nmaps = 0 ∧
      ∀ f, (t'.frames f).nmaps = (t.frames f).nmaps := by
  obtain ⟨l, list, exact_⟩ := free
  rcases frameAlloc_freeList list with ⟨_, empty⟩ | ⟨i, rest, rfl, bound, result, list'⟩
  · rw [empty] at popped
    simp at popped
  rw [result] at popped
  simp only [Except.ok.injEq, Prod.mk.injEq, some.injEq] at popped
  obtain ⟨rfl, rfl⟩ := popped
  obtain ⟨zero, inside⟩ := (exact_ i bound).mp mem_cons_self
  have same : ∀ f, (({ t with freelist := (t.frames i).c }.set i ⟨0, .null⟩).frames f).nmaps = (t.frames f).nmaps := by
    intro f
    rw [set_frames]
    split
    next eq => rw [eq, zero]
    · rfl
  refine ⟨⟨rest, list', ?_⟩, bound, inside, zero, same⟩
  intro f boundF
  have nodup := nodup_cons.mp (freeList_nodup list)
  have mem := exact_ f boundF
  rw [same]
  by_cases eq : f = i
  · simp [eq, nodup.1]
  · simpa [eq] using mem

/-- Writing a frame off the free list, so that it is mapped afterwards. -/
theorem freeFrames_set {frame : Frame}
    (free : FreeFrames t out) (off : g < cosMaxMemory → (t.frames g).nmaps = 0 → g ∈ out)
    (mapped : frame.nmaps ≠ 0) (same : ∀ f, f ≠ g → (f ∈ out ↔ f ∈ out')) : FreeFrames (t.set g frame) out' := by
  obtain ⟨l, list, exact_⟩ := free
  have offList : g ∉ l := by
    intro mem
    have bound := (list.valid g mem).1
    obtain ⟨zero, inside⟩ := (exact_ g bound).mp mem
    exact inside (off bound zero)
  refine ⟨l, freeList_set list offList frame, ?_⟩
  intro f boundF
  by_cases eq : f = g
  · subst eq
    simp [offList, set_frames, mapped]
  · have mem := exact_ f boundF
    simpa [set_frames, eq, same f eq] using mem

theorem frameDeref_nmaps (t : FrameTable) (g f : Nat) : ((frameDeref t g).frames f).nmaps =
    if f = g then derefCount (t.frames g).nmaps else (t.frames f).nmaps := by
  unfold frameDeref
  split
  next last =>
    rw [set_frames, last]
    split <;> rfl
  · rw [set_frames]
    split <;> rfl

/-- A mapping of the frame goes away; a frame without mappings goes back on the free list. -/
theorem freeFrames_deref (free : FreeFrames t out) (bound : g < cosMaxMemory) (off : (t.frames g).nmaps = 0 → g ∈ out)
    (rest : ∀ f, f ∈ out' ↔ f ∈ out ∧ f ≠ g) : FreeFrames (frameDeref t g) out' := by
  obtain ⟨l, list, exact_⟩ := free
  have offList : g ∉ l := by
    intro mem
    obtain ⟨zero, inside⟩ := (exact_ g bound).mp mem
    exact inside (off zero)
  rcases frameDeref_freeList list offList bound with ⟨zero, pushed⟩ | ⟨nonzero, kept⟩
  · refine ⟨g :: l, pushed, fun f boundF => ?_⟩
    by_cases eq : f = g
    · simp [eq, zero, rest]
    · simpa [frameDeref_nmaps, eq, rest] using exact_ f boundF
  · refine ⟨l, kept, fun f boundF => ?_⟩
    by_cases eq : f = g
    · simp [eq, nonzero, offList]
    · simpa [frameDeref_nmaps, eq, rest] using exact_ f boundF

/-- Every frame counts its live mappings, or belongs to the manager and has none. -/
structure FrameRefs (t : FrameTable) (live : Finset MapPtr) (maps : MapPtr → Mapping)
    (out : List Nat) : Prop where
  refs : ∀ f, f < cosMaxMemory → (t.frames f).nmaps = tally live (fun m => (maps m).f) f ∨
    (t.frames f).nmaps = -1 ∧ tally live (fun m => (maps m).f) f = 0
  bound : ∀ m ∈ live, (maps m).f < cosMaxMemory
  idle : ∀ f ∈ out, f < cosMaxMemory ∧ (t.frames f).nmaps = 0
  free : FreeFrames t out

section Frames

variable {t t' : FrameTable} {live : Finset MapPtr} {maps : MapPtr → Mapping} {out : List Nat} {g : Nat}

theorem frameRefs_pop (h : FrameRefs t live maps out) (popped : frameAlloc t = .ok (some g, t')) :
    FrameRefs t' live maps (g :: out) ∧ g < cosMaxMemory ∧ g ∉ out ∧ (t.frames g).nmaps = 0 ∧
      ∀ f, (t'.frames f).nmaps = (t.frames f).nmaps := by
  obtain ⟨free, bound, inside, zero, same⟩ := freeFrames_pop h.free popped
  refine ⟨⟨?_, h.bound, ?_, free⟩, bound, inside, zero, same⟩
  · intro f boundF
    rw [same]
    exact h.refs f boundF
  · intro f mem
    rw [same]
    rcases mem_cons.mp mem with rfl | later
    · exact ⟨bound, zero⟩
    · exact h.idle f later

theorem frameRefs_push (h : FrameRefs t live maps (g :: out)) (inside : g ∉ out) :
    FrameRefs (frameDeref t g) live maps out ∧ ∀ f, ((frameDeref t g).frames f).nmaps = (t.frames f).nmaps := by
  obtain ⟨bound, zero⟩ := h.idle g mem_cons_self
  have same : ∀ f, ((frameDeref t g).frames f).nmaps = (t.frames f).nmaps := by
    intro f
    rw [frameDeref_nmaps]
    split
    next eq => simp [eq, zero, derefCount]
    · rfl
  have free : FreeFrames (frameDeref t g) out :=
    freeFrames_deref h.free bound (fun _ => mem_cons_self) fun f => by grind
  refine ⟨⟨?_, h.bound, ?_, free⟩, same⟩
  · intro f boundF
    rw [same]
    exact h.refs f boundF
  · intro f mem
    rw [same]
    exact h.idle f (mem_cons_of_mem g mem)

/-- A frame that is out becomes the manager's. -/
theorem frameRefs_own (h : FrameRefs t live maps (g :: out)) (inside : g ∉ out) (hp : VAddr) :
    FrameRefs (ownPage t g hp) live maps out ∧
      ∀ f, ((ownPage t g hp).frames f).nmaps = if f = g then -1 else (t.frames f).nmaps := by
  obtain ⟨bound, zero⟩ := h.idle g mem_cons_self
  have count : ∀ f, ((ownPage t g hp).frames f).nmaps = if f = g then -1 else (t.frames f).nmaps := by
    intro f
    rw [ownPage, set_frames]
    split <;> rfl
  refine ⟨⟨?_, h.bound, ?_, ?_⟩, count⟩
  · intro f boundF
    rw [count]
    split
    next eq =>
      subst eq
      refine .inr ⟨rfl, ?_⟩
      rcases h.refs f bound with same | ⟨minus, _⟩ <;> omega
    · exact h.refs f boundF
  · intro f mem
    have other : f ≠ g := fun eq => inside (eq ▸ mem)
    rw [count, if_neg other]
    exact h.idle f (mem_cons_of_mem g mem)
  · refine freeFrames_set h.free (fun _ _ => mem_cons_self) (by simp) ?_
    intro f other
    simp [other]

variable {m : MapPtr}

/-- A new mapping of a frame that is out, or that is mapped already. -/
theorem frameRefs_map {maps' : MapPtr → Mapping} (h : FrameRefs t live maps out) (fresh : m ∉ live)
    (frame : (maps' m).f = g) (same : ∀ x ∈ live, (maps' x).f = (maps x).f) (bound : g < cosMaxMemory)
    (nonneg : 0 ≤ (t.frames g).nmaps) (off : (t.frames g).nmaps = 0 → g ∈ out) (rest : ∀ f, f ∈ out' ↔ f ∈ out ∧ f ≠ g)
    : FrameRefs (frameRef t g) (insert m live) maps' out' := by
  have count : ∀ f, ((frameRef t g).frames f).nmaps = (t.frames f).nmaps + if f = g then 1 else 0 := by
    intro f
    rw [frameRef, set_frames]
    split
    next eq => rw [eq]
    · simp
  have tallied : ∀ f, tally (insert m live) (fun x => (maps' x).f) f =
      tally live (fun x => (maps x).f) f + if f = g then 1 else 0 := by
    intro f
    rw [tally_insert fresh, tally_congr same, frame]
    simp [eq_comm]
  refine ⟨?_, ?_, ?_, ?_⟩
  · intro f boundF
    rw [count, tallied]
    rcases h.refs f boundF with eq | ⟨minus, none⟩
    · left
      split <;> omega
    right
    have other : f ≠ g := by
      rintro rfl
      omega
    simp only [other, if_false]
    omega
  · intro x mem
    rcases mem_insert.mp mem with rfl | old
    · rw [frame]
      exact bound
    · rw [same x old]
      exact h.bound x old
  · intro f mem
    obtain ⟨old, other⟩ := (rest f).mp mem
    rw [count, if_neg other, Int.add_zero]
    exact h.idle f old
  · refine freeFrames_set h.free (fun _ zero => off zero) (by simp only; omega) ?_
    intro f other
    rw [rest f]
    simp [other]

/-- A live mapping of a frame that goes away. -/
theorem frameRefs_unmap (h : FrameRefs t live maps []) (mem : m ∈ live) :
    FrameRefs (frameDeref t (maps m).f) (live.erase m) maps [] := by
  have pos := tally_pos mem (fun x => (maps x).f)
  have bound := h.bound m mem
  have mapped : 0 < (t.frames (maps m).f).nmaps := by
    rcases h.refs _ bound with eq | ⟨_, none⟩ <;> omega
  have free : FreeFrames (frameDeref t (maps m).f) [] :=
    freeFrames_deref h.free bound (fun zero => absurd zero mapped.ne') (by simp)
  refine ⟨?_, ?_, by simp, free⟩
  · intro f boundF
    have tallied := tally_erase mem (fun x => (maps x).f) f
    rw [frameDeref_nmaps]
    by_cases here : f = (maps m).f
    · left
      have before := h.refs f boundF
      simp only [here, if_true, derefCount] at tallied before ⊢
      omega
    · simp only [here, if_false, Ne.symm here, Nat.add_zero] at tallied ⊢
      rw [← tallied]
      exact h.refs f boundF
  · intro x left_
    exact h.bound x (mem_of_mem_erase left_)

/-- Storing the root mapping in a mapped frame. -/
theorem frameRefs_setRoot (h : FrameRefs t live maps out)
    (mapped : (t.frames g).nmaps ≠ 0) : FrameRefs (setRoot t g m) live maps out := by
  have count : ∀ f, ((setRoot t g m).frames f).nmaps = (t.frames f).nmaps := by
    intro f
    rw [setRoot, set_frames]
    split
    next eq => rw [eq]
    · rfl
  refine ⟨?_, h.bound, ?_, ?_⟩
  · intro f boundF
    rw [count]
    exact h.refs f boundF
  · intro f mem
    rw [count]
    exact h.idle f mem
  · exact freeFrames_set h.free (fun _ zero => absurd zero mapped) mapped (fun _ _ => Iff.rfl)

end Frames

/-! ## Component records -/

/-- The mapping that the page vectors hold for a page. -/
def pageAt (comps : SpdId → Option CompVas) (spd : SpdId) (idx : Nat) : Option MapPtr :=
  (comps spd).bind fun cv => cv.pages idx

/-- The vectors find exactly the live mappings, and every record counts those of its component, and
one more when `credit` names it. -/
structure Vectors (comps : SpdId → Option CompVas) (live : Finset MapPtr) (maps : MapPtr → Mapping)
    (credit : Option SpdId) : Prop where
  lookup : ∀ c i m, pageAt comps c i = some m ↔ m ∈ live ∧ (maps m).spdid = c ∧ pageIdx (maps m).addr = i
  counted : ∀ c cv, comps c = some cv → 0 < cv.nmaps ∧
    cv.nmaps = (tally live (fun m => (maps m).spdid) c + if credit = some c then 1 else 0 : Nat)
  credited : ∀ c, credit = some c → comps c ≠ none

section Vectors

variable {comps : SpdId → Option CompVas} {live : Finset MapPtr} {maps maps' : MapPtr → Mapping}
  {dest : SpdId} {cv : CompVas} {idx : Nat}

/-- A component without a record has no live mapping. -/
theorem vectors_none {credit : Option SpdId} (h : Vectors comps live maps credit)
    (absent : comps dest = none) : tally live (fun m => (maps m).spdid) dest = 0 := by
  rw [tally_eq_zero]
  intro m mem spd
  have found := (h.lookup dest (pageIdx (maps m).addr) m).mpr ⟨mem, spd, rfl⟩
  simp [pageAt, absent] at found

/-- Changing a record but not its vector leaves every lookup as it was. -/
theorem pageAt_update (same : cv.pages = ((comps dest).map CompVas.pages).getD fun _ => none)
    (c i : Nat) : pageAt (update comps dest (some cv)) c i = pageAt comps c i := by
  by_cases eq : c = dest
  · subst eq
    cases found : comps c with
    | none | some old => simp [pageAt, found, same]
  · simp [pageAt, eq]

/-- `cvas_ref`, on an old record or on a new one with an empty vector. -/
theorem vectors_ref (h : Vectors comps live maps none)
    (record : comps dest = some cv ∨ comps dest = none ∧ cv = ⟨0, fun _ => none⟩) :
    Vectors (update comps dest (some { cv with nmaps := cv.nmaps + 1 })) live maps (some dest) := by
  have count : cv.nmaps = tally live (fun m => (maps m).spdid) dest := by
    rcases record with found | ⟨absent, rfl⟩
    · simpa using (h.counted dest cv found).2
    · rw [vectors_none h absent]
      rfl
  have pages : cv.pages = ((comps dest).map CompVas.pages).getD fun _ => none := by
    rcases record with found | ⟨absent, rfl⟩
    · simp [found]
    · simp [absent]
  refine ⟨?_, ?_, ?_⟩
  · intro c i m
    rw [pageAt_update (by simpa using pages)]
    exact h.lookup c i m
  · intro c cv' found
    obtain ⟨rfl, rfl⟩ | ⟨eq, found⟩ := update_known found
    · simp only [if_true]
      omega
    · simpa [Ne.symm eq] using h.counted c cv' found
  · intro c credit
    have eq : dest = c := by simpa using credit
    simp [eq]

/-- `cvas_deref` of a record that is counted once too often. -/
theorem vectors_deref (h : Vectors comps live maps (some dest)) (found : comps dest = some cv) :
    0 < cv.nmaps ∧ Vectors (update comps dest
      (if cv.nmaps - 1 = 0 then none else some { cv with nmaps := cv.nmaps - 1 })) live maps
      none := by
  obtain ⟨pos, count⟩ := h.counted dest cv found
  simp only [if_true] at count
  refine ⟨pos, ⟨?_, ?_, by simp⟩⟩
  · intro c i m
    rw [← h.lookup c i m]
    split
    next last =>
      have empty : tally live (fun m => (maps m).spdid) dest = 0 := by omega
      by_cases eq : c = dest
      · subst eq
        have nothing : pageAt comps c i ≠ some m := by
          intro page
          obtain ⟨mem, spd, _⟩ := (h.lookup c i m).mp page
          exact tally_eq_zero.mp empty m mem spd
        simpa [pageAt] using nothing
      · simp [pageAt, eq]
    · rw [pageAt_update (by simp [found])]
  · intro c cv' found'
    by_cases eq : c = dest
    · subst eq
      rw [update_self] at found'
      split at found'
      · contradiction
      next more =>
        simp only [some.injEq] at found'
        subst found'
        simp only [reduceCtorEq, if_false]
        omega
    · rw [update_of_ne eq] at found'
      simpa [Ne.symm eq] using h.counted c cv' found'

/-- One page of one vector changes. -/
theorem pageAt_setPage {entry : Option MapPtr} (found : comps dest = some cv) (c i : Nat) :
    pageAt (update comps dest (some { cv with pages := update cv.pages idx entry })) c i =
      if c = dest ∧ i = idx then entry else pageAt comps c i := by
  by_cases eq : c = dest
  · subst eq
    by_cases page : i = idx <;> simp [pageAt, found, page]
  · simp [pageAt, eq]

/-- `cvect_add` of a new mapping for a counted component whose page is empty. -/
theorem vectors_add {m : MapPtr} (h : Vectors comps live maps (some dest))
    (found : comps dest = some cv) (empty : cv.pages idx = none) (fresh : m ∉ live)
    (same : ∀ x ∈ live, (maps' x).spdid = (maps x).spdid ∧ (maps' x).addr = (maps x).addr)
    (spd : (maps' m).spdid = dest) (page : pageIdx (maps' m).addr = idx) : Vectors (update comps dest
      (some { cv with pages := update cv.pages idx (some m) })) (insert m live) maps'
      none := by
  have vacant : ∀ x, pageAt comps dest idx ≠ some x := by simp [pageAt, found, empty]
  refine ⟨?_, ?_, by simp⟩
  · intro c i x
    rw [pageAt_setPage found, mem_insert]
    by_cases isM : x = m
    · subst isM
      rw [spd, page]
      have absent : pageAt comps c i ≠ some x := fun old => fresh ((h.lookup c i x).mp old).1
      by_cases here : c = dest ∧ i = idx
      · simp [here]
      · simp only [here, if_false, absent, true_or, true_and, false_iff]
        exact fun both => here ⟨both.1.symm, both.2.symm⟩
    · by_cases old : x ∈ live
      · rw [(same x old).1, (same x old).2]
        have before := h.lookup c i x
        split
        next here =>
          obtain ⟨rfl, rfl⟩ := here
          simp only [some.injEq, Ne.symm isM, false_iff]
          rintro ⟨_, both⟩
          exact vacant x (before.mpr ⟨old, both⟩)
        · simpa [isM] using before
      · have absent : pageAt comps c i ≠ some x := fun page => old ((h.lookup c i x).mp page).1
        split <;> simp [isM, old, absent, Ne.symm isM]
  · intro c cv' found'
    have tallied : tally (insert m live) (fun x => (maps' x).spdid) c =
        tally live (fun x => (maps x).spdid) c + if dest = c then 1 else 0 := by
      rw [tally_insert fresh, tally_congr fun x old => (same x old).1, spd]
    rw [tallied]
    obtain ⟨rfl, rfl⟩ | ⟨eq, found'⟩ := update_known found'
    · simpa using h.counted c cv found
    · simpa [Ne.symm eq] using h.counted c cv' found'

/-- `cvect_del` of a live mapping: its component is counted once too often until `cvas_deref`. -/
theorem vectors_drop {m : MapPtr} (h : Vectors comps live maps none) (mem : m ∈ live)
    (found : comps (maps m).spdid = some cv) : Vectors (update comps (maps m).spdid
      (some { cv with pages := update cv.pages (pageIdx (maps m).addr) none }))
      (live.erase m) maps (some (maps m).spdid) := by
  refine ⟨?_, ?_, ?_⟩
  · intro c i x
    rw [pageAt_setPage found, mem_erase]
    have before := h.lookup c i x
    have self := h.lookup c i m
    split
    next here =>
      obtain ⟨rfl, rfl⟩ := here
      simp only [reduceCtorEq, false_iff]
      rintro ⟨⟨other, old⟩, both⟩
      have atX := before.mpr ⟨old, both⟩
      have atM := self.mpr ⟨mem, rfl, rfl⟩
      rw [atM] at atX
      exact other (some.inj atX).symm
    next elsewhere =>
      rw [before]
      constructor
      · rintro ⟨old, spd, idx⟩
        refine ⟨⟨?_, old⟩, spd, idx⟩
        rintro rfl
        exact elsewhere ⟨spd.symm, idx.symm⟩
      · rintro ⟨⟨_, old⟩, both⟩
        exact ⟨old, both⟩
  · intro c cv' found'
    have tallied := tally_erase mem (fun x => (maps x).spdid) c
    obtain ⟨rfl, rfl⟩ | ⟨eq, found'⟩ := update_known found'
    · have count := h.counted _ cv found
      simp only [reduceCtorEq, if_false] at tallied count ⊢
      omega
    · have count := h.counted c cv' found'
      simp only [if_false, reduceCtorEq, some.injEq] at tallied count ⊢
      omega
  · intro c credit
    have eq : (maps m).spdid = c := by simpa using credit
    simp [← eq]

end Vectors

/-! ## Through `mapping_crt` -/

structure Counts {κ : Type} (s : State κ) (out : List Nat) (credit : Option SpdId) : Prop where
  vectors : Vectors s.comps s.live s.maps credit
  frames : FrameRefs s.table s.live s.maps out

/-- The mappings are the same, and so are the counts of the frames, except that the manager may have
taken unused frames for its own pages. -/
structure Held {κ : Type} (s s' : State κ) : Prop where
  maps : s'.maps = s.maps
  sib : s'.sib = s.sib
  live : s'.live = s.live
  frames : ∀ f, (s'.table.frames f).nmaps = (s.table.frames f).nmaps ∨
    (s.table.frames f).nmaps = 0 ∧ (s'.table.frames f).nmaps = -1

section Create

variable {κ : Type} {K : KernelOps κ} {s s' s'' : State κ} {out out' : List Nat}
  {credit : Option SpdId} {p : Option MapPtr} {f : Nat} {dest : SpdId} {addr : VAddr} {flags : Int}

theorem Held.refl (s : State κ) : Held s s := ⟨rfl, rfl, rfl, fun _ => .inl rfl⟩

theorem Held.trans (first : Held s s') (second : Held s' s'') : Held s s'' := by
  refine ⟨second.maps.trans first.maps, second.sib.trans first.sib, second.live.trans first.live, ?_⟩
  intro f
  have one := first.frames f
  have two := second.frames f
  omega

theorem pageStep_frames (step : PageStep K s s') (h : FrameRefs s.table s.live s.maps out) :
    FrameRefs s'.table s'.live s'.maps out ∧ Held s s' ∧ s'.comps = s.comps := by
  cases step with
  | heap => exact ⟨h, ⟨rfl, rfl, rfl, fun _ => .inl rfl⟩, rfl⟩
  | retry popped =>
    obtain ⟨without, _, inside, _, same⟩ := frameRefs_pop h popped
    obtain ⟨frames, same'⟩ := frameRefs_push without inside
    refine ⟨frames, ⟨rfl, rfl, rfl, ?_⟩, rfl⟩
    intro f
    exact .inl ((same' f).trans (same f))
  | @own g t hp k _ popped _ _ =>
    obtain ⟨without, _, inside, zero, same⟩ := frameRefs_pop h popped
    obtain ⟨frames, owned⟩ := frameRefs_own without inside hp
    refine ⟨frames, ⟨rfl, rfl, rfl, ?_⟩, rfl⟩
    intro f
    have now := owned f
    by_cases eq : f = g
    · exact .inr ⟨eq ▸ zero, by rw [now, if_pos eq]⟩
    · exact .inl (by rw [now, if_neg eq, same])

theorem pagesTaken_frames (taken : PagesTaken K s s') (h : FrameRefs s.table s.live s.maps out) :
    FrameRefs s'.table s'.live s'.maps out ∧ Held s s' ∧ s'.comps = s.comps := by
  induction taken with
  | refl => exact ⟨h, Held.refl s, rfl⟩
  | tail _ step ih =>
    obtain ⟨frames, held, comps⟩ := ih
    obtain ⟨frames', held', comps'⟩ := pageStep_frames step frames
    exact ⟨frames', held.trans held', comps'.trans comps⟩

theorem pagesTaken_counts (taken : PagesTaken K s s') (h : Counts s out credit) :
    Counts s' out credit ∧ Held s s' ∧ s'.comps = s.comps := by
  obtain ⟨frames, held, comps⟩ := pagesTaken_frames taken h.frames
  refine ⟨⟨?_, frames⟩, held, comps⟩
  rw [comps, held.live, held.maps]
  exact h.vectors

/-- With the component counted the record is there, without the page, and dropping the count again
restores the records. -/
theorem counted_counts (h : Counts s out none) (counted : Counted K s dest idx s') :
    Counts s' out (some dest) ∧ Held s s' ∧ ∃ cv, s'.comps dest = some cv ∧ cv.pages idx = none ∧
        ∀ s'', cvasDeref s' dest = some s'' → s''.comps = s.comps := by
  cases counted with
  | @found _ cv record empty taken =>
    have pos := (h.vectors.counted dest cv record).1
    have start : Counts (cvasRef s dest cv) out (some dest) := ⟨vectors_ref h.vectors (.inl record), h.frames⟩
    obtain ⟨counts, held, comps⟩ := pagesTaken_counts taken start
    have now : s'.comps dest = some { cv with nmaps := cv.nmaps + 1 } := by simp [comps, cvasRef]
    refine ⟨counts, { held with }, _, now, empty, ?_⟩
    intro s'' dropped
    have more : cv.nmaps + 1 - 1 ≠ 0 := by omega
    simp only [cvasDeref, now, comps, cvasRef, ite_none_right_eq_some, some.injEq, more] at dropped
    rw [← dropped.2]
    simp [← record]
  | @fresh s1 _ absent before taken =>
    obtain ⟨counts1, held1, comps1⟩ := pagesTaken_counts before h
    have absent1 : s1.comps dest = none := by rw [comps1, absent]
    have start : Counts
        { s1 with comps := update s1.comps dest (some ⟨1, fun _ => none⟩) } out
        (some dest) :=
      ⟨vectors_ref counts1.vectors (.inr ⟨absent1, rfl⟩), counts1.frames⟩
    obtain ⟨counts, held, comps⟩ := pagesTaken_counts taken start
    have now : s'.comps dest = some ⟨1, fun _ => none⟩ := by simp [comps]
    refine ⟨counts, held1.trans { held with }, _, now, rfl, ?_⟩
    intro s'' dropped
    simp only [cvasDeref, now, comps, ite_none_right_eq_some, some.injEq] at dropped
    rw [← dropped.2]
    simp [← absent1, comps1]

theorem counts_dropped (h : Counts s out (some dest)) (dropped : cvasDeref s dest = some s') :
    Counts s' out none ∧ Held s s' := by
  unfold cvasDeref at dropped
  split at dropped
  · contradiction
  next cv found =>
    obtain ⟨_, vectors⟩ := vectors_deref h.vectors found
    simp only [ite_none_right_eq_some, some.injEq] at dropped
    obtain ⟨_, rfl⟩ := dropped
    exact ⟨⟨vectors, h.frames⟩, ⟨rfl, rfl, rfl, fun _ => .inl rfl⟩⟩

/-- A `mapping_crt` that fails, but not because the page is mapped, leaves everything as it was. -/
theorem crtExit_failed (h : Counts s out none) (empty : mappingLookup s dest addr = none)
    (exit : CrtExit K s p f dest addr flags s' none) : Counts s' out none ∧ Held s s' ∧ s'.comps = s.comps := by
  cases exit with
  | noRecord _ taken => exact pagesTaken_counts taken h
  | collision mapped => simp [empty] at mapped
  | noSlab counted dropped =>
    obtain ⟨counts, held, _, _, _, restored⟩ := counted_counts h counted
    obtain ⟨counts', held'⟩ := counts_dropped counts dropped
    exact ⟨counts', held.trans held', restored _ dropped⟩
  | @refused s1 _ counted _ dropped =>
    obtain ⟨counts, held, cv, found, _, restored⟩ := counted_counts h counted
    have asked : Counts { s1 with kern := (K.grant s1.kern flags dest addr f).1 } out (some dest) :=
      ⟨counts.vectors, counts.frames⟩
    obtain ⟨counts', held'⟩ := counts_dropped asked dropped
    refine ⟨counts', held.trans ⟨held'.maps, held'.sib, held'.live, held'.frames⟩, ?_⟩
    simp only [cvasDeref, found, ite_none_right_eq_some, some.injEq] at dropped restored
    rw [← restored _ ⟨dropped.1, rfl⟩, ← dropped.2]

theorem mappingInit_frame (s : State κ) (m : MapPtr) (dest : SpdId) (addr : VAddr) (p : Option MapPtr) (f : Nat) :
    (mappingInit s m dest addr p f).table = s.table ∧ (mappingInit s m dest addr p f).comps = s.comps ∧
      (mappingInit s m dest addr p f).live = s.live ∧ (mappingInit s m dest addr p f).kern = s.kern := by
  cases p with
  | none => exact ⟨rfl, rfl, rfl, rfl⟩
  | some =>
    simp only [mappingInit]
    split <;> exact ⟨rfl, rfl, rfl, rfl⟩

/-- The tree after `mapping_init` depends on the tree before it only. -/
theorem mappingInit_congr (maps : s'.maps = s.maps) (sib : s'.sib = s.sib) (m : MapPtr) (dest : SpdId) (addr : VAddr)
    (p : Option MapPtr) (f : Nat) : (mappingInit s' m dest addr p f).maps = (mappingInit s m dest addr p f).maps ∧
      (mappingInit s' m dest addr p f).sib = (mappingInit s m dest addr p f).sib := by
  cases p with
  | none => simp [mappingInit, maps, sib]
  | some =>
    simp only [mappingInit, maps, sib]
    split <;> exact ⟨rfl, rfl⟩

variable {m : MapPtr}

/-- The records of the other mappings keep their page and frame. -/
theorem mappingInit_old (s : State κ) (dest : SpdId) (addr : VAddr) (p : Option MapPtr) (f : Nat)
    {x : MapPtr} (other : x ≠ m) : ((mappingInit s m dest addr p f).maps x).spdid = (s.maps x).spdid ∧
      ((mappingInit s m dest addr p f).maps x).addr = (s.maps x).addr ∧
      ((mappingInit s m dest addr p f).maps x).f = (s.maps x).f := by
  unfold mappingInit
  cases p with
  | none => simp [other]
  | some q =>
    simp only
    split
    · by_cases eq : x = q
      · subst eq
        simp [other]
      · simp [eq, other]
    · simp [other]

theorem mappingInit_new (s : State κ) (dest : SpdId) (addr : VAddr) (f : Nat) (parent : p ≠ some m) :
    ((mappingInit s m dest addr p f).maps m).spdid = dest ∧ ((mappingInit s m dest addr p f).maps m).addr = addr ∧
      ((mappingInit s m dest addr p f).maps m).f = f := by
  unfold mappingInit
  cases p with
  | none => simp
  | some q =>
    have other : m ≠ q := by
      rintro rfl
      exact parent rfl
    simp only
    split <;> simp [other]

/-- The counts once a new mapping of a frame that is out, or of its parent's frame, is linked. -/
theorem frameRefs_linked {s2 : State κ} {k : κ}
    (h : FrameRefs s.table s.live s.maps out) (bound : f < cosMaxMemory) (root : p = none → f ∈ out)
    (fresh : m ∉ s.live) (notSelf : p ≠ some m)
    (linked : s2 = mappingInit { s with live := insert m s.live, kern := k } m dest addr p f)
    (mapped : p.isSome → 0 < (s2.table.frames f).nmaps)
    (rest : ∀ g, g ∈ out' ↔ g ∈ out ∧ g ≠ f) :
    FrameRefs (frameRef s2.table f) s2.live s2.maps out' ∧ 0 ≤ (s.table.frames f).nmaps := by
  obtain ⟨table, _, live, _⟩ := mappingInit_frame { s with live := insert m s.live, kern := k } m dest addr p f
  rw [← linked] at table live
  have maps : s2.maps = (mappingInit s m dest addr p f).maps := by
    rw [linked]
    refine (mappingInit_congr ?_ ?_ m dest addr p f).1 <;> rfl
  have pos : 0 < (s.table.frames f).nmaps ∨ (s.table.frames f).nmaps = 0 ∧ f ∈ out := by
    cases p with
    | none => exact .inr ⟨(h.idle f (root rfl)).2, root rfl⟩
    | some => exact .inl (table ▸ mapped rfl)
  refine ⟨?_, by omega⟩
  rw [table, live, maps]
  apply frameRefs_map h fresh (mappingInit_new s dest addr f notSelf).2.2 ?_ bound ?_ ?_ rest
  · intro x mem
    exact (mappingInit_old s dest addr p f (ne_of_mem_of_not_mem mem fresh)).2.2
  · omega
  · intro zero
    rcases pos with mapped | ⟨_, outside⟩
    · omega
    · exact outside

/-- A new mapping of a frame that is out, or of its parent's frame. -/
theorem crtExit_created (h : Counts s out none) (bound : f < cosMaxMemory) (root : p = none → f ∈ out)
    (child : ∀ q, p = some q → q ∈ s.live) (rest : ∀ g, g ∈ out' ↔ g ∈ out ∧ g ≠ f)
    (exit : CrtExit K s p f dest addr flags s' (some m)) :
    Counts s' out' none ∧ m ∉ s.live ∧ s'.live = insert m s.live ∧ s'.maps = (mappingInit s m dest addr p f).maps ∧
      s'.sib = (mappingInit s m dest addr p f).sib ∧ 0 < (s'.table.frames f).nmaps := by
  cases exit with
  | @created s1 s2 s3 _ counted unused answer linked mapped counts taken =>
    obtain ⟨counts1, held, cv, found, empty, _⟩ := counted_counts h counted
    have fresh : m ∉ s.live := held.live ▸ unused
    have notSelf : p ≠ some m := fun eq => fresh (child m eq)
    obtain ⟨_, comps2, live2, _⟩ := linked ▸ mappingInit_frame { s1 with
      live := insert m s1.live, kern := (K.grant s1.kern flags dest addr f).1 } m dest addr p f
    obtain ⟨maps2, sib2⟩ : s2.maps = (mappingInit s1 m dest addr p f).maps ∧
        s2.sib = (mappingInit s1 m dest addr p f).sib := by
      rw [linked]
      apply mappingInit_congr <;> rfl
    obtain ⟨frames2, _⟩ := frameRefs_linked counts1.frames bound root unused notSelf linked mapped rest
    obtain ⟨frames3, held3, comps3⟩ := pagesTaken_frames taken frames2
    obtain ⟨maps1, sib1⟩ := mappingInit_congr held.maps held.sib m dest addr p f
    have live3 := held3.live.trans live2
    have maps3 := held3.maps.trans maps2
    have found3 : s3.comps dest = some cv := by rw [comps3, comps2, found]
    have vectors : Vectors (setPage s3 dest (pageIdx addr) (some m)).comps s3.live s3.maps none := by
      simp only [setPage, found3, map_some]
      rw [comps3, comps2, live3, maps3]
      obtain ⟨spd, page, _⟩ := mappingInit_new s1 dest addr f notSelf
      apply vectors_add counts1.vectors found empty unused ?_ spd (congrArg pageIdx page)
      intro x mem
      obtain ⟨spd', page', _⟩ := mappingInit_old s1 dest addr p f (ne_of_mem_of_not_mem mem unused)
      exact ⟨spd', page'⟩
    refine ⟨⟨vectors, frames3⟩, fresh, ?_, maps3.trans maps1, ?_, ?_⟩
    · rw [← held.live]
      exact live3
    · exact (held3.sib.trans sib2).trans sib1
    · have after := held3.frames f
      simp only [setPage] at after ⊢
      omega

end Create

/-! ## Through `__mapping_destroy` -/

section Destroy

variable {κ : Type} {K : KernelOps κ} {s : State κ} {m : MapPtr}

/-- The vector of a live mapping holds it, so that the assertions hold. -/
theorem forgetPage_vectors (h : Vectors s.comps s.live s.maps none) (mem : m ∈ s.live) :
    ∃ comps, forgetPage s m = some { s with comps } ∧ Vectors comps (s.live.erase m) s.maps none := by
  have page := (h.lookup _ _ m).mpr ⟨mem, rfl, rfl⟩
  obtain ⟨cv, found, entry⟩ := bind_eq_some_iff.mp page
  obtain ⟨pos, vectors⟩ := vectors_deref (vectors_drop h mem found) (update_self ..)
  refine ⟨_, ?_, vectors⟩
  simp [forgetPage, found, entry, setPage, cvasDeref, pos]

/-- A live mapping outside the tree is destroyed, unless the kernel answers with another frame. -/
theorem mappingDestroy_counts (h : Counts s [] none) (mem : m ∈ s.live) (alone : s.sib.next m = m)
    (orphan : (s.maps m).p = none) (childless : (s.maps m).c = none) :
    if (K.revoke s.kern (s.maps m).spdid (s.maps m).addr).2 = (s.maps m).f then
      ∃ s', mappingDestroy K s m = some s' ∧ Counts s' [] none ∧ s'.maps = s.maps ∧
        s'.sib = s.sib ∧ s'.live = s.live.erase m ∧ s'.kern = (K.revoke s.kern (s.maps m).spdid (s.maps m).addr).1 ∧
        s'.table = frameDeref s.table (s.maps m).f else mappingDestroy K s m = none := by
  obtain ⟨comps, forgotten, vectors⟩ := forgetPage_vectors h.vectors mem
  have frames := frameRefs_unmap h.frames mem
  have destroyed : mappingDestroy K s m =
      if (K.revoke s.kern (s.maps m).spdid (s.maps m).addr).2 ≠ (s.maps m).f then none
      else some { s with
        comps
        kern := (K.revoke s.kern (s.maps m).spdid (s.maps m).addr).1
        table := frameDeref s.table (s.maps m).f
        live := s.live.erase m } := by
    simp [mappingDestroy, alone, orphan, childless, forgotten]
  split
  next same =>
    refine ⟨_, destroyed.trans (if_neg (not_not.mpr same)), ?_⟩
    exact ⟨⟨vectors, frames⟩, rfl, rfl, rfl, rfl, rfl⟩
  next differ => exact destroyed.trans (if_pos differ)

theorem mappingDestroy_some {s' : State κ} (h : Counts s [] none) (mem : m ∈ s.live)
    (destroyed : mappingDestroy K s m = some s') :
    (K.revoke s.kern (s.maps m).spdid (s.maps m).addr).2 = (s.maps m).f ∧ Counts s' [] none ∧
      s'.maps = s.maps ∧ s'.live = s.live.erase m ∧ s'.kern = (K.revoke s.kern (s.maps m).spdid (s.maps m).addr).1 ∧
      s'.table = frameDeref s.table (s.maps m).f := by
  have asserted : ¬(s.sib.next m ≠ m ∨ (s.maps m).p ≠ none ∨ (s.maps m).c ≠ none) := by
    intro failed
    simp [mappingDestroy, failed] at destroyed
  simp only [not_or, not_not] at asserted
  obtain ⟨alone, orphan, childless⟩ := asserted
  have result := mappingDestroy_counts (K := K) h mem alone orphan childless
  split at result
  next answer =>
    obtain ⟨s'', same, counts, maps, _, live, kern⟩ := result
    rw [destroyed] at same
    cases same
    exact ⟨answer, counts, maps, live, kern⟩
  · rw [result] at destroyed
    contradiction

end Destroy

end SuperGlue.Guarantees.MappingCounts
