import SuperGlue.Lib.RingFamily
import SuperGlue.Lib.Transition
import SuperGlue.Source.Slab.Allocator

/-!
# The objects of a slab allocator

A bitmap, a counter and a list say which objects are free. They agree after every call, so that no two live
objects overlap, no assertion fails and a page goes back with its last live object.
-/
namespace SuperGlue.Guarantees.SlabObjects
open Function (update update_apply update_of_ne update_self)
open Nat Finset Lib.Ring Lib.Transition Source.Slab.Allocator Source.Valloc.Bits

variable {size s s' i i' : Nat}

/-! ## Addresses -/

/-- The address of an object in the page `s`. -/
def object (size s i : Nat) : Nat := cslabMemFirst s + i * objSize size

theorem le_objSize (size : Nat) : size ≤ objSize size := by
  unfold objSize wordSize
  omega

theorem wordSize_le_objSize (pos : 1 ≤ size) : wordSize ≤ objSize size := by
  unfold objSize wordSize
  omega

theorem slabMaxObjs_le (pos : 1 ≤ size) : slabMaxObjs size < bitmapSize * wordSize :=
  calc slabMaxObjs size ≤ (pageSize - firstOff) / wordSize :=
      div_le_div_left (wordSize_le_objSize pos) (by decide)
    _ < bitmapSize * wordSize := by decide

theorem object_inside (inside : i < slabMaxObjs size) :
    0 < objSize size ∧ i * objSize size + objSize size ≤ pageSize - firstOff := by
  have room := Nat.mul_le_of_le_div _ _ _ (Nat.succ_le_of_lt inside)
  rw [Nat.succ_mul] at room
  refine ⟨Nat.pos_of_ne_zero fun zero => ?_, room⟩
  rw [slabMaxObjs, zero] at inside
  exact Nat.not_lt_zero i inside

theorem object_page (aligned : pageSize ∣ s) (inside : i < slabMaxObjs size) :
    cslabLookup (object size s i) = s ∧ cslabMemFirst s ≤ object size s i ∧
      object size s i + objSize size ≤ s + pageSize := by
  obtain ⟨pos, room⟩ := object_inside inside
  unfold cslabLookup object cslabMemFirst pageSize firstOff at *
  omega

section

variable (aligned : pageSize ∣ s) (aligned' : pageSize ∣ s') (inside : i < slabMaxObjs size)
  (inside' : i' < slabMaxObjs size)
include aligned aligned' inside inside'

theorem object_inj (same : object size s i = object size s' i') : s = s' ∧ i = i' := by
  obtain rfl : s = s' := by rw [← (object_page aligned inside).1, same, (object_page aligned' inside').1]
  exact ⟨rfl, eq_of_mul_eq_mul_right (object_inside inside).1 (add_left_cancel same)⟩

/-- Different objects do not overlap. -/
theorem object_apart (before : s < s' ∨ s = s' ∧ i < i') : object size s i + objSize size ≤ object size s' i' := by
  rcases before with page | ⟨rfl, index⟩
  · have room : s + pageSize ≤ s' := by
      obtain ⟨k, rfl⟩ := aligned
      obtain ⟨k', rfl⟩ := aligned'
      have next : k + 1 ≤ k' := Nat.lt_of_mul_lt_mul_left page
      calc pageSize * k + pageSize = pageSize * (k + 1) := rfl
        _ ≤ pageSize * k' := mul_le_mul_left _ next
    have first := (object_page aligned' inside').2.1
    have last := (object_page aligned inside).2.2
    unfold cslabMemFirst at first
    omega
  · have next := mul_le_mul_right (objSize size) (succ_le_of_lt index)
    rw [succ_mul] at next
    unfold object
    omega

end

/-! ## The invariant -/

/-- The objects that a bitmap says are free. -/
def freeObjs (size : Nat) (b : Bitmap) : Finset Nat := {i ∈ Finset.range (slabMaxObjs size) | bitmapCheck b i = true}

structure Observed where
  fl : Freelist
  /-- Got from the page allocator and not returned. -/
  pages : Finset Nat
  live : Finset Nat

/-- What is free is what is not live, and slabs with something free are listed. -/
structure Tracked (size : Nat) (o : Observed) (listed : List Nat) : Prop where
  rooted : Rooted o.fl.links o.fl.list listed
  free : ∀ s, s ∈ listed ↔ s ∈ o.pages ∧ 0 < (o.fl.slab s).nfree
  aligned : ∀ s ∈ o.pages, pageSize ∣ s
  counted : ∀ s ∈ o.pages, (o.fl.slab s).nfree = (freeObjs size (o.fl.slab s).bitmap).card
  live : ∀ a, a ∈ o.live ↔ ∃ s ∈ o.pages, ∃ i < slabMaxObjs size,
    bitmapCheck (o.fl.slab s).bitmap i = false ∧ a = object size s i

variable {o : Observed} {listed listed' : List Nat} {fl : Freelist} {b : Bitmap} {n : Nat} {pages : Finset Nat}

/-- One object is marked. If its page goes back, then nothing in it is live. -/
theorem Tracked.store (h : Tracked size o listed) (page : s ∈ o.pages) (inside : i < slabMaxObjs size) (free : Bool)
    (marked : b = if free then bitmapSet (o.fl.slab s).bitmap i else bitmapUnset (o.fl.slab s).bitmap i)
    (count : n = (freeObjs size b).card) (slab : fl.slab = update o.fl.slab s ⟨n, b⟩)
    (rooted : Rooted fl.links fl.list listed') (on : ∀ x, x ∈ listed' ↔ if x = s then s ∈ pages ∧ 0 < n else x ∈ listed)
    (kept : ∀ x, x ≠ s → (x ∈ pages ↔ x ∈ o.pages)) (gone : s ∉ pages → ∀ j < slabMaxObjs size, bitmapCheck b j) :
    Tracked size ⟨fl, pages, if free then o.live.erase (object size s i) else insert (object size s i) o.live⟩
      listed' := by
  have bits : ∀ j, bitmapCheck b j = if j = i then free else bitmapCheck (o.fl.slab s).bitmap j :=
    fun j => marked ▸ bitmapMark_check _ i j free
  have old : ∀ x ∈ pages, x ∈ o.pages := by
    intro x mem
    by_cases same : x = s
    · exact same ▸ page
    · exact (kept x same).mp mem
  have stays : ∀ j < slabMaxObjs size, bitmapCheck b j = false → s ∈ pages := by
    intro j below bit
    by_contra missing
    nomatch (gone missing j below).symm.trans bit
  refine ⟨rooted, fun x => ?_, fun x mem => h.aligned x (old x mem), fun x mem => ?_, fun a => ?_⟩
  · rw [on, slab, update_apply]
    split
    next same => rw [same]
    next other => rw [h.free, kept x other]
  · rw [slab, update_apply]
    split
    · exact count
    · exact h.counted x (old x mem)
  · have lives : (a ∈ if free then o.live.erase (object size s i) else insert (object size s i) o.live) ↔
        if a = object size s i then free = false else a ∈ o.live := by
      cases free <;> by_cases here : a = object size s i <;> simp [here]
    rw [lives, slab]
    split
    next here =>
      constructor
      · intro taken
        have bit : bitmapCheck b i = false := by rw [bits, if_pos rfl, taken]
        exact ⟨s, stays i inside bit, i, inside, by rw [update_self, bit], here⟩
      · rintro ⟨x, mem, j, below, bit, rfl⟩
        obtain ⟨rfl, rfl⟩ := object_inj (h.aligned x (old x mem)) (h.aligned s page) below inside here
        rwa [update_self, bits, if_pos rfl] at bit
    next elsewhere =>
      have other : ∀ x j, a = object size x j → x = s → j ≠ i := fun x j eq same at_ => elsewhere (same ▸ at_ ▸ eq)
      rw [h.live]
      constructor
      · rintro ⟨x, mem, j, below, bit, eq⟩
        by_cases same : x = s
        · subst same
          have bit : bitmapCheck b j = false := by rw [bits, if_neg (other x j eq rfl), bit]
          exact ⟨x, stays j below bit, j, below, by rw [update_self, bit], eq⟩
        · exact ⟨x, (kept x same).mpr mem, j, below, by rw [update_of_ne same, bit], eq⟩
      · rintro ⟨x, mem, j, below, bit, eq⟩
        refine ⟨x, old x mem, j, below, ?_, eq⟩
        rw [update_apply] at bit
        split at bit
        next same =>
          subst same
          rwa [bits, if_neg (other x j eq rfl)] at bit
        · exact bit

/-! ## Calls -/

theorem freelistAdd_rooted (fl : Freelist) (rooted : Rooted fl.links fl.list listed) (off : s ∉ listed) :
    ∃ fl' listed', slabFreelistAdd fl s = some fl' ∧ fl'.slab = fl.slab ∧ Rooted fl'.links fl'.list listed' ∧
      ∀ x, x ∈ listed' ↔ x = s ∨ x ∈ listed := by
  obtain ⟨listed', rooted', on⟩ := rooted.push off
  have alone := rooted.family.outside s fun _ => off
  have other : fl.list ≠ some s := fun first => off (List.mem_of_mem_head? (rooted.head ▸ first))
  rw [slabFreelistAdd, if_pos ⟨alone, other⟩]
  refine ⟨_, listed', rfl, rfl, ?_, on⟩
  split
  next head first => rwa [first] at rooted'
  next first => rwa [first] at rooted'

section

variable (h : Tracked size o listed)
include h

theorem Tracked.take (pos : 1 ≤ size) (first : s ∈ listed) :
    ∃ fl i listed', cslabTake o.fl s (objSize size) (slabMaxObjs size) = some (fl, some (object size s i)) ∧
      i < slabMaxObjs size ∧ Tracked size ⟨fl, o.pages, insert (object size s i) o.live⟩ listed' := by
  obtain ⟨page, available⟩ := (h.free s).mp first
  have count := h.counted s page
  obtain ⟨j, mem⟩ := card_pos.mp (count ▸ available)
  obtain ⟨below, set⟩ := mem_filter.mp mem
  have below := mem_range.mp below
  obtain ⟨i, le, found⟩ := bitmapOne_le (lt_trans below (slabMaxObjs_le pos)) set
  have inside := lt_of_le_of_lt le below
  have free : i ∈ freeObjs size (o.fl.slab s).bitmap :=
    mem_filter.mpr ⟨mem_range.mpr inside, bitmapOne_check found⟩
  have rest : freeObjs size (bitmapUnset (o.fl.slab s).bitmap i) = (freeObjs size (o.fl.slab s).bitmap).erase i := by
    ext j
    grind [freeObjs, bitmapUnset_check]
  generalize card : (o.fl.slab s).nfree - 1 = n
  have left : n = (freeObjs size (bitmapUnset (o.fl.slab s).bitmap i)).card := by
    rw [rest, card_erase_of_mem free, ← count, card]
  rw [cslabTake, found]
  dsimp only
  rw [if_pos ⟨inside, available.ne'⟩, card]
  refine ⟨_, i, if n = 0 then listed.erase s else listed, rfl, inside, ?_⟩
  split
  next empty =>
    refine h.store page inside false rfl left rfl (h.rooted.rem s) (fun x => ?_) (fun _ _ => Iff.rfl) (absurd page)
    rw [(isRing_nodup (h.rooted.family.ring ())).mem_erase_iff]
    by_cases here : x = s <;> simp [here, empty]
  next more =>
    refine h.store page inside false rfl left rfl h.rooted (fun x => ?_) (fun _ _ => Iff.rfl) (absurd page)
    by_cases here : x = s <;> simp [here, first, page, Nat.pos_of_ne_zero more]

/-- With one more object free, everything in the page is free iff nothing else in it is live. -/
theorem Tracked.last_iff (page : s ∈ o.pages) (inside : i < slabMaxObjs size) :
    (∀ j < slabMaxObjs size, bitmapCheck (bitmapSet (o.fl.slab s).bitmap i) j) ↔
      ∀ a ∈ o.live, cslabLookup a = s → a = object size s i := by
  have aligned := h.aligned s page
  simp only [bitmapSet_check, Bool.or_eq_true, decide_eq_true_eq]
  constructor
  · intro set a mem at_
    obtain ⟨x, stored, j, below, clear, rfl⟩ := (h.live a).mp mem
    obtain rfl : x = s := (object_page (h.aligned x stored) below).1.symm.trans at_
    obtain rfl | bit := set j below
    · rfl
    · nomatch bit.symm.trans clear
  · intro only j below
    by_contra! neither
    obtain ⟨other, clear⟩ := neither
    have mem := (h.live _).mpr ⟨s, page, j, below, by simpa using clear, rfl⟩
    exact other (object_inj aligned aligned below inside (only _ mem (object_page aligned below).1)).2

/-- The page goes back if what is freed is the last live object in it. -/
theorem Tracked.release (page : s ∈ o.pages) (inside : i < slabMaxObjs size)
    (bit : bitmapCheck (o.fl.slab s).bitmap i = false) :
    ∃ fl back listed', cslabFree size o.fl (object size s i) = some (fl, back) ∧
      back = (if ∀ a ∈ o.live, cslabLookup a = s → a = object size s i then some s else none) ∧
      Tracked size ⟨fl, back.elim o.pages o.pages.erase, o.live.erase (object size s i)⟩ listed' := by
  obtain ⟨lookup, above, -⟩ := object_page (h.aligned s page) inside
  have index : (object size s i - cslabMemFirst s) / objSize size = i := by
    rw [object, Nat.add_sub_cancel_left, Nat.mul_div_cancel i (object_inside inside).1]
  have taken : i ∉ freeObjs size (o.fl.slab s).bitmap := by simp [freeObjs, bit]
  have more : freeObjs size (bitmapSet (o.fl.slab s).bitmap i) = insert i (freeObjs size (o.fl.slab s).bitmap) := by
    ext j
    by_cases here : j = i <;> simp [freeObjs, bitmapSet_check, here, inside]
  have listed_iff := h.free s
  generalize card : (o.fl.slab s).nfree + 1 = n
  have count : n = (freeObjs size (bitmapSet (o.fl.slab s).bitmap i)).card := by
    rw [more, card_insert_of_notMem taken, ← h.counted s page, card]
  have full : n = slabMaxObjs size ↔ ∀ a ∈ o.live, cslabLookup a = s → a = object size s i := by
    rw [← h.last_iff page inside, count, freeObjs]
    nth_rewrite 2 [← card_range (slabMaxObjs size)]
    rw [card_filter_eq_iff]
    simp
  unfold cslabFree cslabMemFree
  rw [lookup, if_neg (not_lt.mpr above), index, if_pos ⟨inside, bit⟩, card]
  by_cases last : n = slabMaxObjs size
  · rw [if_pos last, if_pos (full.mp last)]
    refine ⟨_, _, listed.erase s, rfl, rfl, ?_⟩
    refine h.store page inside true rfl count rfl (h.rooted.rem s) (fun x => ?_) (fun x other => ?_)
      fun _ => (h.last_iff page inside).mpr (full.mp last)
    · rw [(isRing_nodup (h.rooted.family.ring ())).mem_erase_iff]
      by_cases here : x = s <;> simp [here]
    · simp [other]
  · rw [if_neg last, if_neg (mt full.mpr last)]
    have pos : 0 < n := by omega
    by_cases first : n = 1
    · have off : s ∉ listed := by
        rw [listed_iff]
        omega
      rw [if_pos first]
      obtain ⟨fl', listed', added, slab, rooted, on⟩ :=
        freelistAdd_rooted ({ o.fl with slab := update o.fl.slab s ⟨n, _⟩ }) h.rooted off
      rw [added]
      refine ⟨_, _, listed', rfl, rfl, h.store page inside true rfl count slab rooted (fun x => ?_) ?_ ?_⟩
      · rw [on]
        by_cases here : x = s <;> simp [here, page, pos]
      · simp
      · simp [page]
    · have on : s ∈ listed := by
        rw [listed_iff]
        exact ⟨page, by omega⟩
      rw [if_neg first]
      refine ⟨_, _, listed, rfl, rfl, h.store page inside true rfl count rfl h.rooted (fun x => ?_) ?_ ?_⟩
      · by_cases here : x = s <;> simp [here, on, page, pos]
      · simp
      · simp [page]

/-- A page from the allocator, all of it free. -/
theorem Tracked.init (some_obj : 0 < slabMaxObjs size) (aligned : pageSize ∣ s) (new : s ∉ o.pages) :
    ∃ fl listed', cslabInit s o.fl (slabMaxObjs size) = some fl ∧ s ∈ listed' ∧
      Tracked size ⟨fl, insert s o.pages, o.live⟩ listed' := by
  have off : s ∉ listed := fun on => new ((h.free s).mp on).1
  have alone := h.rooted.family.outside s fun _ => off
  have ones : ∀ i, bitmapCheck (fun _ => BitVec.allOnes 32) i := by
    intro i
    rw [bitmapCheck, BitVec.getLsbD_allOnes]
    exact decide_eq_true (mod_lt i (by decide))
  rw [cslabInit, linked_init h.rooted.family.linked alone]
  obtain ⟨fl, listed', added, slab, rooted, on⟩ := freelistAdd_rooted
    { o.fl with slab := update o.fl.slab s ⟨slabMaxObjs size, fun _ => BitVec.allOnes 32⟩ } h.rooted off
  have other : ∀ x ∈ o.pages, fl.slab x = o.fl.slab x := by
    intro x mem
    have ne : x ≠ s := fun same => new (same ▸ mem)
    rw [slab]
    exact update_of_ne ne ..
  have here : fl.slab s = ⟨slabMaxObjs size, fun _ => BitVec.allOnes 32⟩ := by
    rw [slab]
    exact update_self ..
  refine ⟨fl, listed', added, (on s).mpr (.inl rfl), rooted, fun x => ?_, ?_, ?_, fun a => (h.live a).trans ?_⟩
  · rw [on, h.free, mem_insert, or_and_right]
    exact or_congr (iff_self_and.mpr fun same => by rw [same, here]; exact some_obj)
      (and_congr_right fun mem => by rw [other x mem])
  · exact (forall_mem_insert ..).mpr ⟨aligned, h.aligned⟩
  · refine (forall_mem_insert ..).mpr ⟨?_, fun x mem => ?_⟩
    · rw [here, freeObjs, filter_true_of_mem fun i _ => ones i, card_range]
    · rw [other x mem, h.counted x mem]
  · rw [exists_mem_insert, here]
    simp only [ones, Bool.true_eq_false, false_and, and_false, exists_const, false_or]
    exact exists_congr fun x => and_congr_right fun mem => by rw [other x mem]

end

/-! ## Runs -/

inductive Call where
  | alloc (answer : Option Nat)
  | free (buf : Nat)

/-- The page allocator gives pages that it has, and only live objects are freed. -/
def Legal (o : Observed) : Call → Prop
  | .alloc answer => ∀ s ∈ answer, pageSize ∣ s ∧ s ∉ o.pages
  | .free buf => buf ∈ o.live

def perform (size : Nat) (o : Observed) : Call → Option Observed
  | .alloc answer => (cslabAlloc size o.fl answer).map fun (fl, mem) =>
      ⟨fl, if o.fl.list = none then answer.elim o.pages (insert · o.pages) else o.pages,
        mem.elim o.live (insert · o.live)⟩
  | .free buf => (cslabFree size o.fl buf).map fun (fl, page) =>
      ⟨fl, page.elim o.pages o.pages.erase, o.live.erase buf⟩

def slabSystem (size : Nat) : System Observed Call :=
  ⟨⟨⟨none, fun _ => ⟨0, .empty⟩, ⟨id, id⟩⟩, ∅, ∅⟩, perform size⟩

/-- Besides, every page has a live object. -/
structure Regular (size : Nat) (o : Observed) : Prop where
  tracked : ∃ listed, Tracked size o listed
  busy : ∀ s ∈ o.pages, ∃ a ∈ o.live, cslabLookup a = s

theorem Regular.alloc (h : Regular size o) (pos : 1 ≤ size) (holds : 0 < slabMaxObjs size)
    {answer : Option Nat} (legal : Legal o (.alloc answer)) :
    ∃ fl mem, cslabAlloc size o.fl answer = some (fl, mem) ∧ (mem = none ↔ o.fl.list = none ∧ answer = none) ∧
      Regular size ⟨fl, if o.fl.list = none then answer.elim o.pages (insert · o.pages) else o.pages,
        mem.elim o.live (insert · o.live)⟩ := by
  obtain ⟨⟨listed, tracked⟩, busy⟩ := h
  have more : ∀ x ∈ o.pages, ∀ b, ∃ a ∈ insert b o.live, cslabLookup a = x := by
    intro x member b
    obtain ⟨a, live, at_⟩ := busy x member
    exact ⟨a, mem_insert_of_mem live, at_⟩
  unfold cslabAlloc cslabMemAlloc
  cases first : o.fl.list with
  | some s =>
    have on : s ∈ listed := List.mem_of_mem_head? (tracked.rooted.head ▸ first)
    obtain ⟨fl, i, listed', taken, inside, tracked'⟩ := tracked.take pos on
    exact ⟨fl, _, taken, by simp, ⟨listed', tracked'⟩, fun x member => more x member _⟩
  | none =>
    cases answer with
    | none => exact ⟨o.fl, none, rfl, by simp, ⟨listed, tracked⟩, busy⟩
    | some s =>
      obtain ⟨aligned, new⟩ := legal s rfl
      obtain ⟨fl, listed1, init, on, tracked1⟩ := tracked.init holds aligned new
      obtain ⟨fl, i, listed', taken, inside, tracked'⟩ := tracked1.take pos on
      refine ⟨fl, some (object size s i), ?_, by simp, ⟨listed', tracked'⟩, (forall_mem_insert ..).mpr ⟨?_, ?_⟩⟩
      · dsimp only
        rw [init]
        exact taken
      · exact ⟨_, mem_insert_self .., (object_page aligned inside).1⟩
      · exact fun x member => more x member _

theorem Regular.release (h : Regular size o) {buf : Nat} (legal : buf ∈ o.live) :
    ∃ fl back, cslabFree size o.fl buf = some (fl, back) ∧
      back = (if ∀ a ∈ o.live, cslabLookup a = cslabLookup buf → a = buf then some (cslabLookup buf) else none) ∧
      Regular size ⟨fl, back.elim o.pages o.pages.erase, o.live.erase buf⟩ := by
  obtain ⟨⟨listed, tracked⟩, busy⟩ := h
  obtain ⟨s, page, i, inside, bit, rfl⟩ := (tracked.live buf).mp legal
  obtain ⟨fl, back, listed', freed, last, tracked'⟩ := tracked.release page inside bit
  have lookup := (object_page (tracked.aligned s page) inside).1
  refine ⟨fl, back, freed, by rw [lookup, last], ⟨listed', tracked'⟩, ?_⟩
  have others : ∀ x ∈ o.pages, x ≠ s → ∃ a ∈ o.live.erase (object size s i), cslabLookup a = x := by
    intro x mem other
    obtain ⟨a, live, rfl⟩ := busy x mem
    exact ⟨a, mem_erase.mpr ⟨fun same => other (same ▸ lookup), live⟩, rfl⟩
  rw [last]
  split
  · intro x mem
    obtain ⟨other, mem⟩ := mem_erase.mp mem
    exact others x mem other
  rename_i more
  push Not at more
  obtain ⟨b, live, at_, ne⟩ := more
  intro x mem
  by_cases here : x = s
  · exact ⟨b, mem_erase.mpr ⟨ne, live⟩, at_.trans here.symm⟩
  · exact others x mem here

theorem regular_reachable (pos : 1 ≤ size) (holds : 0 < slabMaxObjs size)
    (reached : Reachable (slabSystem size) Legal o) : Regular size o := by
  refine reached.invariant (Regular size) ?_ fun o call o' h legal run => ?_
  · have family : Family (⟨id, id⟩ : Links Nat) fun _ : Unit => [] :=
      ⟨⟨fun _ => rfl, fun _ => rfl⟩, fun _ => trivial, nofun, fun _ _ => rfl⟩
    refine ⟨⟨[], ⟨family, rfl⟩, ?_, nofun, nofun, ?_⟩, nofun⟩ <;> simp [slabSystem]
  · cases call with
    | alloc =>
      obtain ⟨fl, mem, done, -, regular⟩ := h.alloc pos holds legal
      simp only [slabSystem, perform, done, Option.map_some, Option.some.injEq] at run
      exact run ▸ regular
    | free =>
      obtain ⟨fl, back, done, -, regular⟩ := h.release legal
      simp only [slabSystem, perform, done, Option.map_some, Option.some.injEq] at run
      exact run ▸ regular

/-- Live objects are inside their pages and do not overlap, the free count, the list and the set of pages say what
the bitmaps say, and no call on live objects fails. -/
theorem slab_objects (positive : 1 ≤ size) (fits : objSize size ≤ pageSize - firstOff)
    (reached : Reachable (slabSystem size) Legal o) :
    (∀ a ∈ o.live, cslabLookup a ∈ o.pages ∧ cslabLookup a + headerSize ≤ a ∧ a + size ≤ cslabLookup a + pageSize) ∧
    (∀ a ∈ o.live, ∀ b ∈ o.live, a ≠ b → a + size ≤ b ∨ b + size ≤ a) ∧
    (∀ s ∈ o.pages, (o.fl.slab s).nfree = (freeObjs size (o.fl.slab s).bitmap).card) ∧
    (∃ listed, Rooted o.fl.links o.fl.list listed ∧ ∀ s, s ∈ listed ↔ s ∈ o.pages ∧ 0 < (o.fl.slab s).nfree) ∧
    (∀ s, s ∈ o.pages ↔ ∃ a ∈ o.live, cslabLookup a = s) ∧
    (∀ answer, Legal o (.alloc answer) → ∃ fl mem, cslabAlloc size o.fl answer = some (fl, mem) ∧
      (mem = none ↔ o.fl.list = none ∧ answer = none)) ∧ ∀ buf ∈ o.live, ∃ fl, cslabFree size o.fl buf = some (fl,
      if ∀ a ∈ o.live, cslabLookup a = cslabLookup buf → a = buf then some (cslabLookup buf) else none) := by
  have holds := div_pos fits (lt_of_lt_of_le (by decide) (wordSize_le_objSize positive))
  have h := regular_reachable positive holds reached
  obtain ⟨listed, tracked⟩ := h.tracked
  have sized := le_objSize size
  have placed : ∀ a ∈ o.live, cslabLookup a ∈ o.pages ∧ cslabLookup a + headerSize ≤ a ∧
      a + size ≤ cslabLookup a + pageSize := by
    intro a member
    obtain ⟨s, page, i, inside, -, rfl⟩ := (tracked.live a).mp member
    obtain ⟨lookup, first, last⟩ := object_page (tracked.aligned s page) inside
    unfold cslabMemFirst firstOff at first
    rw [lookup, headerSize]
    exact ⟨page, by omega, by omega⟩
  refine ⟨placed, ?_, tracked.counted, ⟨listed, tracked.rooted, tracked.free⟩, fun s => ⟨h.busy s, ?_⟩, ?_, ?_⟩
  · intro a live b live' ne
    obtain ⟨s, page, i, inside, -, rfl⟩ := (tracked.live a).mp live
    obtain ⟨s', page', i', inside', -, rfl⟩ := (tracked.live b).mp live'
    have aligned := tracked.aligned s page
    have aligned' := tracked.aligned s' page'
    have order : (s < s' ∨ s = s' ∧ i < i') ∨ (s' < s ∨ s' = s ∧ i' < i) := by
      have differ : ¬ (s = s' ∧ i = i') := fun same => ne (same.1 ▸ same.2 ▸ rfl)
      omega
    refine order.imp (fun before => ?_) fun before => ?_
    · exact (Nat.add_le_add_left sized _).trans (object_apart aligned aligned' inside inside' before)
    · exact (Nat.add_le_add_left sized _).trans (object_apart aligned' aligned inside' inside before)
  · rintro ⟨a, live, rfl⟩
    exact (placed a live).1
  · intro answer legal
    obtain ⟨fl, mem, done, none_iff, -⟩ := h.alloc positive holds legal
    exact ⟨fl, mem, done, none_iff⟩
  · intro buf live
    obtain ⟨fl, back, done, last, -⟩ := h.release live
    exact ⟨fl, last ▸ done⟩

instance : DecidableRel Legal
  | _, .alloc answer => inferInstanceAs (Decidable (∀ s ∈ answer, _))
  | o, .free buf => inferInstanceAs (Decidable (buf ∈ o.live))

/-- Objects of 1500 bytes, two to a page: the third one is in a second page, which goes back with it. -/
theorem second_page_returned : ∃ o fl, Reachable (slabSystem 1500) Legal o ∧ o.pages = {4096, 8192} ∧
    o.live = {4160, 5664, 8256} ∧ cslabFree 1500 o.fl 8256 = some (fl, some 8192) := by
  obtain ⟨o, run, pages, live⟩ := exec_ends (slabSystem 1500) Legal
    [.alloc (some 4096), .alloc none, .alloc (some 8192)]
    (fun o => o.pages = {4096, 8192} ∧ o.live = {4160, 5664, 8256}) (by decide +kernel)
  obtain ⟨-, -, -, -, -, -, freed⟩ := slab_objects (by decide) (by decide) ⟨_, run⟩
  obtain ⟨fl, done⟩ := freed 8256 (by rw [live]; decide)
  rw [live] at done
  exact ⟨o, fl, ⟨_, run⟩, pages, live, done⟩

end SuperGlue.Guarantees.SlabObjects
