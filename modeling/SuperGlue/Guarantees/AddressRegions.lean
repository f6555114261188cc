import SuperGlue.Lib.Pool
import SuperGlue.Lib.Transition
import SuperGlue.Source.Valloc.Server

/-!
# Regions of the address allocator

A region that is handed out lies in one extent of its component and apart from the other regions, and a free
gives its pages back to that extent. A new extent is as large as the one before it, whatever is asked for, an
empty heap extent still has its pages marked as free, and the end of an extent counts as part of it, so this
needs a condition on the calls.
-/
namespace SuperGlue.Guarantees.AddressRegions
open Nat Function Option Lib.Pool Lib.Transition Source.Valloc.Bits Source.Valloc.Server

/-- A region in the hands of a client. -/
structure Region where
  addr : Nat
  npages : Nat
  deriving DecidableEq, Repr

/-- The addresses of a region. -/
def Region.cells (r : Region) : Set Nat := {a | r.addr ≤ a ∧ a < r.addr + r.npages * pageSize}

/-- The addresses in pages that are marked as free. -/
def Available (extents : List Extent) : Set Nat :=
  {a | ∃ e ∈ extents, e.start ≤ a ∧ bitmapCheck e.map ((a - e.start) / pageSize) = true}

/-- Pages of every extent. -/
def pages : Nat := pgdSize / pageSize

/-- The region consists of pages of the extent. -/
def Holds (e : Extent) (r : Region) : Prop :=
  ∃ off < pages, r.addr = e.start + off * pageSize ∧ off + r.npages ≤ pages

structure Sound (extents : List Extent) (regions : List Region) : Prop where
  sized : ∀ e ∈ extents, e.stop = e.start + pages * pageSize
  marked : ∀ e ∈ extents, ∀ v, bitmapCheck e.map v = true → v < pages
  apart : extents.Pairwise fun e e' => e.stop ≤ e'.start ∨ e'.stop ≤ e.start
  used : extents ≠ []
  placed : ∀ r ∈ regions, ∃ e ∈ extents, Holds e r
  pool : Separated Region.cells (Available extents) regions

variable {extents : List Extent} {regions : List Region} {e : Extent} {r : Region} {a : Nat}

theorem pageSize_pos : 0 < pageSize := by decide

/-! ## Pages of an extent -/

theorem mem_cells (start off npages : Nat) : a ∈ (⟨start + off * pageSize, npages⟩ : Region).cells ↔
      start ≤ a ∧ off ≤ (a - start) / pageSize ∧ (a - start) / pageSize < off + npages := by
  rw [le_div_iff_mul_le pageSize_pos, div_lt_iff_lt_mul pageSize_pos, add_mul]
  simp only [Region.cells, Set.mem_ofPred_eq]
  omega

theorem Holds.bounds (holds : Holds e r) (sized : e.stop = e.start + pages * pageSize) :
    e.start ≤ r.addr ∧ r.addr < e.stop ∧ r.addr + r.npages * pageSize ≤ e.stop := by
  obtain ⟨off, inside, addr, fits⟩ := holds
  have low := Nat.mul_lt_mul_of_pos_right inside pageSize_pos
  have high := mul_le_mul_right pageSize fits
  rw [add_mul] at high
  omega

/-- An address in a page of the extent lies between its ends. -/
theorem page_bounds (sized : e.stop = e.start + pages * pageSize) (above : e.start ≤ a)
    (page : (a - e.start) / pageSize < pages) : a < e.stop := by
  rw [div_lt_iff_lt_mul pageSize_pos] at page
  omega

variable {pre post : List Extent} {start : Nat}

theorem mem_available_middle (pre post : List Extent) : a ∈ Available (pre ++ e :: post) ↔
      (e.start ≤ a ∧ bitmapCheck e.map ((a - e.start) / pageSize)) ∨ a ∈ Available (pre ++ post) := by
  simp only [Available, List.mem_append, List.mem_cons]
  constructor
  · rintro ⟨e', before | rfl | after, free⟩
    · exact .inr ⟨e', .inl before, free⟩
    · exact .inl free
    · exact .inr ⟨e', .inr after, free⟩
  · rintro (free | ⟨e', before | after, free⟩)
    · exact ⟨e, .inr (.inl rfl), free⟩
    · exact ⟨e', .inl before, free⟩
    · exact ⟨e', .inr (.inr after), free⟩

theorem findExtent_some {extents' : List Extent} (found : findExtent npages extents = some (extents', ret)) :
    ∃ pre e post off, extents = pre ++ e :: post ∧ (∀ v, off ≤ v → v ≤ off + npages → bitmapCheck e.map v) ∧
      extents' = pre ++ { e with map := bitmapSetContig e.map off npages false } :: post ∧
      ret = e.start + off * pageSize := by
  induction extents generalizing extents' ret with
  | nil => contradiction
  | cons e rest ih =>
    rw [findExtent] at found
    split at found
    next map off run =>
      obtain ⟨r, ones, eq⟩ := map_eq_some_iff.mp run
      cases eq
      cases found
      exact ⟨[], e, rest, off, rfl, bitmapContiguousOnes_ones ones, rfl, rfl⟩
    · obtain ⟨⟨rest', ret'⟩, run, eq⟩ := map_eq_some_iff.mp found
      cases eq
      obtain ⟨pre, e', post, off, rfl, ones, rfl, rfl⟩ := ih run
      exact ⟨e :: pre, e', post, off, rfl, ones, rfl, rfl⟩

/-- Only the first extent that covers the address matters. -/
theorem freeIn_eq {addr : Nat} (npages : Nat)
    (before : ∀ e' ∈ pre, e'.covers addr = false) (covers : e.covers addr) :
    freeIn addr npages (pre ++ e :: post) = let off := (addr - e.start) / pageSize
      let last := (off + npages) % 2 ^ 32
      if last < mapMax * wordBytes then
        some (pre ++ { e with map := bitmapSetContig e.map off (last - off) true } :: post)
      else none := by
  induction pre with
  | nil => simp [freeIn, covers]
  | cons e' pre ih =>
    rw [List.cons_append, freeIn, if_neg (by simp [before e' List.mem_cons_self]),
      ih fun e'' mem => before e'' (List.mem_cons_of_mem e' mem)]
    dsimp only
    split <;> rfl

section

variable (h : Sound (pre ++ e :: post) regions)
include h

theorem Sound.others : ∀ e' ∈ pre ++ post, e'.stop ≤ e.start ∨ e.stop ≤ e'.start := by
  have apart := List.pairwise_middle (fun disjoint => disjoint.symm) |>.mp h.apart
  intro e' mem
  exact ((List.pairwise_cons.mp apart).1 e' mem).symm

/-- The other extents have no page between the ends of this one. -/
theorem Sound.not_elsewhere (above : e.start ≤ a) (below : a < e.stop) : a ∉ Available (pre ++ post) := by
  rintro ⟨e', mem, above', free⟩
  have mem' : e' ∈ pre ++ e :: post := by
    rcases List.mem_append.mp mem with before | after
    · exact List.mem_append_left _ before
    · exact List.mem_append_right _ (List.mem_cons_of_mem e after)
  have below' := page_bounds (h.sized e' mem') above' (h.marked e' mem' _ free)
  have apart := h.others e' mem
  omega

variable {off npages : Nat}

/-- The bits of one extent change from `off` on. -/
theorem Sound.available_set (fits : off + npages ≤ pages) (one : Bool) :
    Available (pre ++ { e with map := bitmapSetContig e.map off npages one } :: post) =
      if one then Available (pre ++ e :: post) ∪ (⟨e.start + off * pageSize, npages⟩ : Region).cells
      else Available (pre ++ e :: post) \ (⟨e.start + off * pageSize, npages⟩ : Region).cells := by
  have here : e ∈ pre ++ e :: post := by simp
  ext a
  have elsewhere : a ∈ (⟨e.start + off * pageSize, npages⟩ : Region).cells → a ∉ Available (pre ++ post) := by
    rw [mem_cells]
    rintro ⟨above, -, high⟩
    exact h.not_elsewhere above (page_bounds (h.sized e here) above (by omega))
  cases one with
  | true =>
    rw [if_pos rfl, Set.mem_union, mem_available_middle, mem_available_middle, mem_cells, bitmapSetContig_check]
    grind
  | false =>
    rw [if_neg (by decide), Set.mem_sdiff, mem_available_middle, mem_available_middle, bitmapSetContig_check]
    rw [mem_cells] at elsewhere ⊢
    grind

/-- Only the bitmap of one extent changes. -/
theorem Sound.remap {regions' : List Region} {map : Bitmap}
    (marked : ∀ v, bitmapCheck map v → v < pages)
    (placed : ∀ r ∈ regions', ∃ e' ∈ pre ++ e :: post, Holds e' r)
    (pool : Separated Region.cells (Available (pre ++ { e with map } :: post)) regions') :
    Sound (pre ++ { e with map } :: post) regions' := by
  have here : e ∈ pre ++ e :: post := by simp
  have mem : ∀ e', e' ∈ pre ++ { e with map } :: post →
      e' = { e with map } ∨ e' ∈ pre ++ e :: post := by
    intro e' inside
    simp only [List.mem_append, List.mem_cons] at inside ⊢
    tauto
  refine ⟨?_, ?_, ?_, by simp, ?_, pool⟩
  · intro e' inside
    rcases mem e' inside with rfl | old
    · exact h.sized e here
    · exact h.sized e' old
  · intro e' inside
    rcases mem e' inside with rfl | old
    · exact marked
    · exact h.marked e' old
  · have apart := (List.pairwise_middle fun disjoint => disjoint.symm).mp h.apart
    exact (List.pairwise_middle fun disjoint => disjoint.symm).mpr
      (List.pairwise_cons.mpr (List.pairwise_cons.mp apart))
  · intro r live
    obtain ⟨e', inside, holds⟩ := placed r live
    simp only [List.mem_append, List.mem_cons] at inside
    rcases inside with before | rfl | after
    · exact ⟨e', by simp [before], holds⟩
    · exact ⟨{ e' with map }, by simp, holds⟩
    · exact ⟨e', by simp [after], holds⟩

/-! ## The functions -/

variable {ret : Nat}

/-- A region is taken from an extent that has its pages. -/
theorem Sound.take (starts : off < pages) (fits : off + npages ≤ pages)
    (ones : ∀ v, off ≤ v → v < off + npages → bitmapCheck e.map v) :
    Sound (pre ++ { e with map := bitmapSetContig e.map off npages false } :: post)
      (⟨e.start + off * pageSize, npages⟩ :: regions) := by
  have here : e ∈ pre ++ e :: post := by simp
  have free : (⟨e.start + off * pageSize, npages⟩ : Region).cells ⊆ Available (pre ++ e :: post) := by
    intro a inside
    obtain ⟨above, low, high⟩ := (mem_cells ..).mp inside
    exact ⟨e, here, above, ones _ low high⟩
  refine h.remap ?_ ?_ ?_
  · intro v bit
    rw [bitmapSetContig_check] at bit
    split at bit
    · contradiction
    · exact h.marked e here v bit
  · intro r live
    rcases List.mem_cons.mp live with rfl | live
    · exact ⟨e, here, off, starts, rfl, fits⟩
    · exact h.placed r live
  · rw [h.available_set fits false]
    exact h.pool.take free

end

theorem nextSize_eq (h : Sound extents regions) (small : npages ≤ pages) : nextSize extents npages = pages := by
  have modest : ¬ extentSize < npages := not_lt.mpr (small.trans (by decide))
  obtain ⟨last, found⟩ := ne_none_iff_exists'.mp (List.getLast?_eq_none_iff.not.mpr h.used)
  have sized := h.sized last (List.mem_of_getLast? found)
  rw [nextSize, if_neg modest, found]
  change (last.stop - last.start) / pageSize = pages
  rw [sized, Nat.add_sub_cancel_left, Nat.mul_div_cancel pages pageSize_pos]

/-- The range does not overlap the extents there are. -/
def Fresh (extents : List Extent) (start size : Nat) : Prop :=
  ∀ e ∈ extents, e.stop ≤ start ∨ start + size * pageSize ≤ e.start

instance (extents : List Extent) (start size : Nat) : Decidable (Fresh extents start size) :=
  inferInstanceAs (Decidable (∀ e ∈ extents, _))

theorem newExtent_check (start v : Nat) : bitmapCheck (newExtent start pages 0).map v = decide (v < pages) := by
  have empty : bitmapCheck Bitmap.empty v = false := by simp [bitmapCheck, Bitmap.empty]
  simp [newExtent, bitmapSetContig, bitmapSetContig_check, empty]

/-- All pages of a new extent are free. -/
theorem Sound.grow (h : Sound extents regions) (fresh : Fresh extents start pages) :
    Sound (extents ++ [newExtent start pages 0]) regions := by
  have mem : ∀ e, e ∈ extents ++ [newExtent start pages 0] → e ∈ extents ∨ e = newExtent start pages 0 := by
    simp
  have whole : Available (extents ++ [newExtent start pages 0]) =
      Available extents ∪ {a | start ≤ a ∧ a < start + pages * pageSize} := by
    ext a
    rw [mem_available_middle, List.append_nil, newExtent_check, or_comm, decide_eq_true_eq,
      div_lt_iff_lt_mul pageSize_pos]
    change _ ∨ start ≤ a ∧ a - start < pages * pageSize ↔ _ ∨ start ≤ a ∧ a < start + pages * pageSize
    refine or_congr_right (and_congr_right fun above => ?_)
    omega
  refine ⟨?_, ?_, ?_, by simp, ?_, ?_⟩
  · intro e inside
    rcases mem e inside with old | rfl
    · exact h.sized e old
    · rfl
  · intro e inside v bit
    rcases mem e inside with old | rfl
    · exact h.marked e old v bit
    · rw [newExtent_check] at bit
      exact of_decide_eq_true bit
  · rw [List.pairwise_append]
    refine ⟨h.apart, List.pairwise_singleton .., ?_⟩
    intro e old e' added
    obtain rfl := List.mem_singleton.mp added
    exact fresh e old
  · intro r live
    obtain ⟨e, old, holds⟩ := h.placed r live
    exact ⟨e, List.mem_append_left _ old, holds⟩
  · rw [whole]
    refine h.pool.grow _ fun r live => Set.disjoint_left.mpr ?_
    rintro a ⟨low, high⟩ ⟨above, below⟩
    obtain ⟨e, old, holds⟩ := h.placed r live
    have bounds := holds.bounds (h.sized e old)
    have apart := fresh e old
    omega

theorem newExtent_sound (h : Sound extents regions) (small : npages ≤ pages) (fresh : Fresh extents start pages) :
    Sound (extents ++ [newExtent start pages npages]) (⟨start, npages⟩ :: regions) := by
  have ones : ∀ v, 0 ≤ v → v < 0 + npages → bitmapCheck (newExtent start pages 0).map v := by
    intro v _ high
    rw [newExtent_check, decide_eq_true_eq]
    omega
  have taken := (h.grow fresh).take (by decide) (by omega) ones
  rw [zero_mul] at taken
  simpa only [newExtent, bitmapSetContig, add_zero] using taken

theorem heapExtent_sound {hp : Nat} (inside : hp % pgdSize ≠ 0) : Sound [heapExtent hp] [] := by
  have stop : (heapExtent hp).stop = (heapExtent hp).start + pages * pageSize := by
    change (hp + pgdSize - 1) / pgdSize * pgdSize = hp / pgdSize * pgdSize + pgdSize
    have up : (hp + pgdSize - 1) / pgdSize = hp / pgdSize + 1 := by
      simp only [pgdSize] at inside ⊢
      omega
    rw [up, add_mul, one_mul]
  have offset : (hp - hp / pgdSize * pgdSize) / pageSize < pages := by
    simp only [pgdSize, pageSize, pages]
    omega
  refine ⟨?_, ?_, List.pairwise_singleton .., by simp, by simp, Separated.empty ..⟩
  · intro e mem
    obtain rfl := List.mem_singleton.mp mem
    exact stop
  intro e mem v bit
  obtain rfl := List.mem_singleton.mp mem
  have empty : bitmapCheck Bitmap.empty v = false := by simp [bitmapCheck, Bitmap.empty]
  rw [heapExtent, bitmapSetContig_check, empty] at bit
  split at bit
  next range =>
    have high := range.2
    change v < (hp - hp / pgdSize * pgdSize) / pageSize + (pages - (hp - hp / pgdSize * pgdSize) / pageSize) at high
    omega
  · contradiction

/-- A region goes back to the extent it is in. -/
theorem Sound.give (h : Sound (pre ++ e :: post) regions)
    (fits : off + npages ≤ pages) (live : ⟨e.start + off * pageSize, npages⟩ ∈ regions) :
    Sound (pre ++ { e with map := bitmapSetContig e.map off npages true } :: post)
      (regions.erase ⟨e.start + off * pageSize, npages⟩) := by
  have here : e ∈ pre ++ e :: post := by simp
  refine h.remap ?_ ?_ ?_
  · intro v bit
    rw [bitmapSetContig_check] at bit
    split at bit
    · omega
    · exact h.marked e here v bit
  · exact fun r mem => h.placed r (List.mem_of_mem_erase mem)
  · rw [h.available_set fits true]
    exact h.pool.give live

/-! ## Every run -/

structure Observed where
  state : State
  /-- The regions that were returned for a component and not freed since. -/
  regions : SpdId → List Region

inductive Call where
  | alloc (spdid dest : SpdId) (npages : Nat) (heap : Option Nat) (expanded : Nat)
  | free (dest : SpdId) (addr npages : Nat)
  deriving DecidableEq, Repr

/-- What `vas_mgr_expand` answers, if it is called: a range of the size asked for that is not in use. -/
def Expands (s : State) (dest : SpdId) (npages : Nat) (heap : Option Nat) (expanded : Nat) : Prop :=
  ∀ extents ∈ vallocInit s dest heap, (findExtent npages extents).isNone = true →
    Fresh extents expanded (nextSize extents npages)

instance (s : State) (dest : SpdId) (npages : Nat) (heap : Option Nat) (expanded : Nat) :
    Decidable (Expands s dest npages heap expanded) :=
  inferInstanceAs (Decidable (∀ extents ∈ vallocInit s dest heap, _))

def perform (o : Observed) : Call → Option Observed
  | .alloc spdid dest npages heap expanded =>
    if Expands o.state dest npages heap expanded then
      let (s, ret) := vallocAlloc o.state spdid dest npages heap expanded
      some ⟨s, if ret = 0 then o.regions
        else Function.update o.regions dest (⟨ret, npages⟩ :: o.regions dest)⟩
    else none
  | .free dest addr npages =>
    (vallocFree o.state dest addr npages).map fun (s, ret) =>
      ⟨s, if ret = 0 then Function.update o.regions dest ((o.regions dest).erase ⟨addr, npages⟩)
        else o.regions⟩

def valloc : System Observed Call := ⟨⟨init, fun _ => []⟩, perform⟩

/-- The condition on a call, in the state before it. -/
def Careful (o : Observed) : Call → Prop
  | .alloc _ dest npages heap _ =>
    (npages ≤ pages ∨ mapMax * wordBytes < npages) ∧ (o.state.spds dest = none → ∀ hp ∈ heap, hp % pgdSize ≠ 0)
  | .free dest addr npages =>
    ∀ extents ∈ o.state.spds dest, ∀ e ∈ extents.find? (·.covers addr), ⟨addr, npages⟩ ∈ o.regions dest ∧ addr ≠ e.stop

structure Regular (o : Observed) : Prop where
  sound : ∀ dest extents, o.state.spds dest = some extents → Sound extents (o.regions dest)
  unknown : ∀ dest, o.state.spds dest = none → o.regions dest = []

variable {o o' : Observed} {dest : SpdId}

variable (h : Regular o)
include h

theorem Regular.known (live : r ∈ o.regions dest) :
    ∃ extents, o.state.spds dest = some extents ∧ Sound extents (o.regions dest) := by
  cases known : o.state.spds dest with
  | none =>
    rw [h.unknown dest known] at live
    contradiction
  | some extents => exact ⟨extents, rfl, h.sound dest extents known⟩

variable {s : State}

/-- The extents and regions of one component change. -/
theorem Regular.update {regions : SpdId → List Region}
    (spds : s.spds = Function.update o.state.spds dest (some extents))
    (others : ∀ other, other ≠ dest → regions other = o.regions other)
    (sound : Sound extents (regions dest)) : Regular ⟨s, regions⟩ := by
  constructor
  · intro other extents' known
    rw [spds] at known
    by_cases eq : other = dest
    · subst eq
      rw [update_self] at known
      cases known
      exact sound
    · rw [update_of_ne eq] at known
      change Sound extents' (regions other)
      rw [others other eq]
      exact h.sound other extents' known
  · intro other unknown
    rw [spds] at unknown
    by_cases eq : other = dest
    · subst eq
      rw [update_self] at unknown
      contradiction
    · rw [update_of_ne eq] at unknown
      exact (others other eq).trans (h.unknown other unknown)

omit h in
theorem track_spds (s : State) (spdid dest : SpdId) (ret : Nat) : (track s spdid dest ret).spds = s.spds := by
  unfold track
  split <;> rfl

/-- A region that is returned, or pages at the address 0, which the client takes for a failure. -/
theorem Regular.returned (spds : s.spds = Function.update o.state.spds dest (some extents))
    (sound : Sound extents (⟨ret, npages⟩ :: o.regions dest)) : Regular ⟨s, if ret = 0 then o.regions
      else Function.update o.regions dest (⟨ret, npages⟩ :: o.regions dest)⟩ := by
  split
  · exact h.update spds (fun _ _ => rfl)
      ⟨sound.sized, sound.marked, sound.apart, sound.used,
        fun r live => sound.placed r (List.mem_cons_of_mem _ live), sound.pool.drop⟩
  · refine h.update spds (fun other ne => update_of_ne ne ..) ?_
    rw [update_self]
    exact sound

theorem vallocAlloc_regular {spdid : SpdId} {expanded : Nat} {heap : Option Nat}
    (careful : Careful o (.alloc spdid dest npages heap expanded)) (answer : Expands o.state dest npages heap expanded)
    (run : vallocAlloc o.state spdid dest npages heap expanded = (s, ret)) : Regular ⟨s, if ret = 0 then o.regions
      else Function.update o.regions dest (⟨ret, npages⟩ :: o.regions dest)⟩ := by
  obtain ⟨size, aligned⟩ := careful
  rw [vallocAlloc] at run
  split at run
  · cases run
    exact h
  rename_i extents start
  have sound : Sound extents (o.regions dest) := by
    rw [vallocInit] at start
    split at start
    next known =>
      cases start
      exact h.sound dest extents known
    next unknown =>
      obtain ⟨hp, read, rfl⟩ := map_eq_some_iff.mp start
      rw [h.unknown dest unknown]
      exact heapExtent_sound (aligned unknown hp read)
  split at run
  · cases run
    exact h.update rfl (fun _ _ => rfl) sound
  rename_i modest
  have small := size.resolve_right modest
  split at run
  next extents' ret' found =>
    cases run
    obtain ⟨pre, e, post, off, rfl, ones, rfl, rfl⟩ := findExtent_some found
    have last := sound.marked e (by simp) (off + npages) (ones _ (by omega) (by omega))
    exact h.returned (track_spds ..) (sound.take (by omega) last.le fun v low high => ones v low high.le)
  next missing =>
    split at run
    · have fresh := answer extents start (by rw [missing]; rfl)
      rw [nextSize_eq sound small] at fresh run
      cases run
      exact h.returned (track_spds ..) (newExtent_sound sound small fresh)
    · cases run
      exact h.update rfl (fun _ _ => rfl) sound

/-- A live region goes back to its extent, and nothing else changes. -/
theorem vallocFree_live (careful : Careful o (.free dest r.addr r.npages)) (live : r ∈ o.regions dest) :
    ∃ pre e post off s, o.state.spds dest = some (pre ++ e :: post) ∧ r.addr = e.start + off * pageSize ∧
      off + r.npages ≤ pages ∧ vallocFree o.state dest r.addr r.npages = some (s, 0) ∧
      s.spds = Function.update o.state.spds dest
        (some (pre ++ { e with map := bitmapSetContig e.map off r.npages true } :: post)) := by
  obtain ⟨extents, known, sound⟩ := h.known live
  obtain ⟨own, mem, holds⟩ := sound.placed r live
  have bounds := holds.bounds (sound.sized own mem)
  have covered : extents.any (·.covers r.addr) :=
    List.any_eq_true.mpr ⟨own, mem, decide_eq_true ⟨bounds.1, bounds.2.1.le⟩⟩
  obtain ⟨e, first⟩ := isSome_iff_exists.mp (List.find?_isSome.mpr (List.any_eq_true.mp covered))
  have inside := (careful extents known e first).2
  obtain ⟨covers, pre, post, rfl, before⟩ := List.find?_eq_some_iff_append.mp first
  -- the first extent that covers the address of a live region is the one it is in
  obtain ⟨off, -, addr, fits⟩ : Holds e r := by
    obtain ⟨above, below⟩ := of_decide_eq_true covers
    rw [List.perm_middle.mem_iff, List.mem_cons] at mem
    rcases mem with rfl | other
    · exact holds
    · have apart := sound.others own other
      omega
  have offset : (r.addr - e.start) / pageSize = off := by
    rw [addr, Nat.add_sub_cancel_left, Nat.mul_div_cancel off pageSize_pos]
  have small : off + r.npages < mapMax * wordBytes := fits.trans_lt (by decide)
  have word : (off + r.npages) % 2 ^ 32 = off + r.npages := mod_eq_of_lt (small.trans (by decide))
  let extents' := pre ++ { e with map := bitmapSetContig e.map off r.npages true } :: post
  refine ⟨pre, e, post, off, untrack (o.state.setExtents dest extents') r.addr, known, addr, fits, ?_, rfl⟩
  rw [vallocFree, known]
  simp only [covered, freeIn_eq _ (by simpa using before) covers, offset, word, if_pos small, Nat.add_sub_cancel_left]
  rfl

theorem vallocFree_regular {addr : Nat} (careful : Careful o (.free dest addr npages))
    (run : perform o (.free dest addr npages) = some o') : Regular o' := by
  obtain ⟨⟨s, ret⟩, freed, rfl⟩ := map_eq_some_iff.mp run
  by_cases live : ⟨addr, npages⟩ ∈ o.regions dest
  · obtain ⟨pre, e, post, off, s', known, rfl, fits, freed', spds⟩ := vallocFree_live h careful live
    rw [freed'] at freed
    cases freed
    refine h.update spds (fun other ne => update_of_ne ne ..) ?_
    rw [if_pos rfl, update_self]
    exact (h.sound dest _ known).give fits live
  · -- no extent covers the address
    rw [vallocFree] at freed
    split at freed
    · cases freed
      exact h
    rename_i extents known
    have uncovered : extents.find? (·.covers addr) = none := by
      by_contra found
      obtain ⟨e, first⟩ := ne_none_iff_exists'.mp found
      exact live (careful extents known e first).1
    rw [if_neg (by simpa using uncovered)] at freed
    split at freed
    · contradiction
    · cases freed
      exact h

omit h

theorem init_regular : Regular valloc.init := by
  refine ⟨?_, fun _ _ => rfl⟩
  intro dest extents known
  contradiction

theorem valloc_regular (reached : Reachable valloc Careful o) : Regular o := by
  refine reached.invariant Regular init_regular ?_
  intro o call o' h careful next
  cases call with
  | alloc spdid dest npages heap expanded =>
    change perform o (.alloc spdid dest npages heap expanded) = some o' at next
    rw [perform] at next
    split at next
    next answer =>
      cases next
      exact vallocAlloc_regular h careful answer rfl
    · contradiction
  | free => exact vallocFree_regular h careful next

/-- The region lies between the ends of one extent. -/
def Contains (e : Extent) (r : Region) : Prop := e.start ≤ r.addr ∧ r.addr + r.npages * pageSize ≤ e.stop

/-- The page `v` of the extent is in the region. -/
def PageOf (e : Extent) (r : Region) (v : Nat) : Prop :=
  r.addr ≤ e.start + v * pageSize ∧ e.start + v * pageSize < r.addr + r.npages * pageSize

/-- A free of the region succeeds, and in the one extent that contains it exactly its pages, which were not
available, become available; no other extent of any component changes. -/
def GivenBack (s : State) (dest : SpdId) (r : Region) : Prop :=
  ∃ pre e post map s', s.spds dest = some (pre ++ e :: post) ∧ Contains e r ∧
    vallocFree s dest r.addr r.npages = some (s', 0) ∧
    s'.spds = Function.update s.spds dest (some (pre ++ { e with map := map } :: post)) ∧
    (∀ v, bitmapCheck map v = true ↔ bitmapCheck e.map v = true ∨ PageOf e r v) ∧
    ∀ v, PageOf e r v → bitmapCheck e.map v = false

theorem pageOf_iff {v : Nat} (addr : r.addr = e.start + off * pageSize) :
    PageOf e r v ↔ off ≤ v ∧ v < off + r.npages := by
  have low : off * pageSize ≤ v * pageSize ↔ off ≤ v := Nat.mul_le_mul_right_iff pageSize_pos
  have high : v * pageSize < (off + r.npages) * pageSize ↔ v < off + r.npages := Nat.mul_lt_mul_right pageSize_pos
  rw [add_mul] at high
  rw [PageOf]
  omega

theorem givenBack (h : Regular o) (careful : Careful o (.free dest r.addr r.npages))
    (live : r ∈ o.regions dest) : GivenBack o.state dest r := by
  obtain ⟨pre, e, post, off, s', known, addr, fits, freed, spds⟩ := vallocFree_live h careful live
  have sound := h.sound dest _ known
  have here : e ∈ pre ++ e :: post := by simp
  have sized := sound.sized e here
  have contains : Contains e r := by
    have high := mul_le_mul_right pageSize fits
    rw [add_mul] at high
    exact ⟨by omega, by omega⟩
  refine ⟨pre, e, post, _, s', known, contains, freed, spds, ?_, ?_⟩
  · intro v
    rw [bitmapSetContig_check, pageOf_iff addr]
    split
    next range => simp [range]
    next outside => simp [outside]
  · intro v page
    by_contra set
    have first : e.start + v * pageSize ∈ Available (pre ++ e :: post) := by
      refine ⟨e, here, Nat.le_add_right .., ?_⟩
      rwa [Nat.add_sub_cancel_left, Nat.mul_div_cancel v pageSize_pos, ← Bool.not_eq_false]
    exact Set.disjoint_left.mp (sound.pool.taken r live) page first

/-- In every run of careful calls each live region is inside one extent of its component, the live regions of
a component do not overlap, and a careful free of one gives its pages back. -/
theorem regions_kept (reached : Reachable valloc Careful o) (dest : SpdId) :
    (∀ r ∈ o.regions dest, ∃ extents, o.state.spds dest = some extents ∧ ∃ e ∈ extents, Contains e r) ∧
      ((o.regions dest).Pairwise fun r r' => Disjoint r.cells r'.cells) ∧
      ∀ r ∈ o.regions dest, Careful o (.free dest r.addr r.npages) → GivenBack o.state dest r := by
  have h := valloc_regular reached
  refine ⟨?_, ?_, fun r live careful => givenBack h careful live⟩
  · intro r live
    obtain ⟨extents, known, sound⟩ := h.known live
    obtain ⟨e, mem, holds⟩ := sound.placed r live
    have bounds := holds.bounds (sound.sized e mem)
    exact ⟨extents, known, e, mem, bounds.1, bounds.2.2⟩
  · cases known : o.state.spds dest with
    | none =>
      rw [h.unknown dest known]
      exact .nil
    | some extents => exact (h.sound dest extents known).pool.apart

instance (o : Observed) (dest : SpdId) (addr npages : Nat) : Decidable (Careful o (.free dest addr npages)) :=
  inferInstanceAs (Decidable (∀ extents ∈ o.state.spds dest, _))

instance : DecidableRel Careful := fun _ call =>
  match call with
  | .alloc .. => inferInstanceAs (Decidable (_ ∧ _))
  | .free .. => inferInstance

/-- Two regions from the last three pages of the heap extent, the second from a new extent; the first is
freed. -/
def fewPages : List Call :=
  [.alloc 1 2 1 (some 0x407fd000) 0, .alloc 1 2 3 none 0x50000000, .free 2 0x407fd000 1]

theorem few_pages_kept : ∃ o, Run valloc Careful fewPages o ∧ o.regions 2 = [⟨0x50000000, 3⟩] ∧
    GivenBack o.state 2 ⟨0x50000000, 3⟩ := by
  refine exec_shows (fun o => o.regions 2 = [⟨0x50000000, 3⟩] ∧ Careful o (.free 2 0x50000000 3)) (by decide +kernel)
    fun o run ⟨regions, careful⟩ => ?_
  obtain ⟨-, -, freed⟩ := regions_kept ⟨_, run⟩ 2
  exact ⟨regions, freed _ (by rw [regions]; exact List.mem_singleton_self _) careful⟩

/-- No run of `npages` pages is found where no bit from `pages` on is set. -/
theorem findExtent_none (h : Sound extents regions) (large : pages ≤ npages) : findExtent npages extents = none := by
  by_contra found
  obtain ⟨⟨extents', ret⟩, run⟩ := ne_none_iff_exists'.mp found
  obtain ⟨pre, e, post, off, rfl, ones, -, -⟩ := findExtent_some run
  have last := h.marked e (by simp) (off + npages) (ones _ (by omega) (by omega))
  omega

theorem perform_next {calls : List Call} {call : Call} (run : Run valloc anyStep calls o)
    (step : perform o call = some o') : Run valloc anyStep (calls ++ [call]) o' :=
  run.next trivial step

/-- The extents after a request that none of them can serve. -/
theorem alloc_new (o : Observed) (spdid dest : SpdId) (npages expanded : Nat) (heap : Option Nat)
    (start : vallocInit o.state dest heap = some extents) (modest : npages ≤ mapMax * wordBytes)
    (missing : findExtent npages extents = none) (room : extents.length < maxSpdVasLocations)
    (fresh : Fresh extents expanded (nextSize extents npages)) (address : expanded ≠ 0) :
    ∃ o', perform o (.alloc spdid dest npages heap expanded) = some o' ∧
      o'.regions dest = ⟨expanded, npages⟩ :: o.regions dest ∧
      o'.state.spds dest = some (extents ++ [newExtent expanded (nextSize extents npages) npages]) := by
  have answer : Expands o.state dest npages heap expanded := by
    intro extents' start' _
    rw [start] at start'
    cases start'
    exact fresh
  refine ⟨_, if_pos answer, ?_, ?_⟩
  · simp [start, missing, room, not_lt.mpr modest, newExtent, address]
  · simp [start, missing, room, not_lt.mpr modest, track_spds, State.setExtents]

/-- Of 2000 pages all after the first 1024 are beyond the end of the extent they come from. And a region at
the start of an extent is freed in the extent that ends there. -/
theorem regions_misplaced : (∃ o, Run valloc anyStep [.alloc 1 2 2000 (some 0x40401000) 0x50000000] o ∧
      ⟨0x50000000, 2000⟩ ∈ o.regions 2 ∧
      ¬ ∃ extents, o.state.spds 2 = some extents ∧ ∃ e ∈ extents, Contains e ⟨0x50000000, 2000⟩) ∧
    ∃ o, Run valloc anyStep [.alloc 1 2 3 (some 0x407fd000) 0x40800000] o ∧
      ⟨0x40800000, 3⟩ ∈ o.regions 2 ∧ ¬ GivenBack o.state 2 ⟨0x40800000, 3⟩ := by
  constructor
  · have sound : Sound [heapExtent 0x40401000] [] := heapExtent_sound (by decide)
    obtain ⟨o, step, regions, spds⟩ := alloc_new valloc.init 1 2 2000 0x50000000
      (some 0x40401000) rfl (by decide) (findExtent_none sound (by decide))
      (by decide) (by decide +kernel) (by decide)
    have run := perform_next .start step
    refine ⟨o, run, by rw [regions]; exact List.mem_cons_self, ?_⟩
    rintro ⟨extents, known, e, mem, contains⟩
    rw [spds] at known
    cases known
    simp only [List.cons_append, List.nil_append, List.mem_cons, List.not_mem_nil, or_false] at mem
    rcases mem with rfl | rfl
    · exact absurd contains.2 (by decide +kernel)
    · exact absurd contains.2 (by decide)
  · refine exec_shows (fun o => ⟨0x40800000, 3⟩ ∈ o.regions 2 ∧
        (∀ extents ∈ o.state.spds 2, ∀ e ∈ extents, e.start < 0x40800000 → e.stop < 0x40803000) ∧
        ∀ freed ∈ vallocFree o.state 2 0x40800000 3, ∀ extents ∈ freed.1.spds 2, ∀ e ∈ extents,
          e.start = 0x40800000 → bitmapCheck e.map 0 = false) (by decide +kernel)
      fun o _ ⟨live, others, after⟩ => ⟨live, ?_⟩
    rintro ⟨pre, e, post, map, s', known, ⟨low, high⟩, freed, spds, exactly, -⟩
    have start : e.start = 0x40800000 := by
      have short := others _ known e (by simp)
      change e.start ≤ 0x40800000 at low
      change 0x40803000 ≤ e.stop at high
      omega
    have first := (exactly 0).mpr (.inr ⟨by simp [start], by rw [start]; decide⟩)
    have bit := after _ freed _ (spds ▸ update_self ..) { e with map } (by simp) start
    rw [first] at bit
    contradiction

end SuperGlue.Guarantees.AddressRegions
