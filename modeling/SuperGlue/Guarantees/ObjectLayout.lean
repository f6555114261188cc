import SuperGlue.Lib.Transition
import SuperGlue.Source.Cobj.Format

/-!
# The layout of a component object

The mark of an uninitialised section is the empty set of flags, which no test sees, and sizes wrap. The layout is kept
while sections are initialised in order, at separate addresses and without wrapping. A section out of order is refused
for its size only.
-/
namespace SuperGlue.Guarantees.ObjectLayout
open Function List Lib.Transition Source.Cobj.Format

/-- An object with the sections that were initialised. -/
structure Object extends Header where
  ready : List Nat

def objects (h : Header) : System Object Init where
  init := ⟨h, []⟩
  step o c := some (((cobjSectInit o.toHeader c).map (⟨·, c.idx :: o.ready⟩)).getD o)

/-! ## The layout -/

variable {o : Object} {c : Init} {s : Sect} {sz k i : Nat}

def solid (s : Sect) : Prop := ¬ has s.flags cobjSectZeros

/-- The end of the contents. -/
def stop (s : Sect) : Nat := s.offset + s.bytes

/-- The end of the addresses. -/
def top (s : Sect) : Nat := s.vaddr + s.bytes

/-- The section before is not initialised. -/
def early (o : Object) (c : Init) : Prop := c.idx ≠ 0 ∧ c.idx - 1 ∉ o.ready

/-- The predecessor is initialised and the successor is not, nothing wraps, and the addresses are those of no other
section; or the section is larger than the object. -/
def Careful (o : Object) (c : Init) : Prop :=
  o.nsect ≤ c.idx ∨ early o c ∧ ¬ has c.flags cobjSectZeros ∧ o.size < c.size ∧ c.size < 2 ^ 32 ∨
    (c.idx = 0 ∨ c.idx - 1 ∈ o.ready) ∧ c.idx + 1 ∉ o.ready ∧
      (has c.flags cobjSectZeros ∨ o.size + c.size < 2 ^ 32) ∧ c.vaddr + c.size < 2 ^ 32 ∧
      ∀ i ∈ o.ready, i ≠ c.idx → c.vaddr + c.size ≤ (o.sects i).vaddr ∨ top (o.sects i) ≤ c.vaddr

instance : DecidableRel Careful := fun o c => inferInstanceAs (Decidable (o.nsect ≤ c.idx ∨
  (c.idx ≠ 0 ∧ c.idx - 1 ∉ o.ready) ∧ _ ∧ _ ∧ _ ∨ _))

structure Laid (o : Object) : Prop where
  inside : ∀ i ∈ o.ready, solid (o.sects i) →
    tablesSz o.nsect o.nsymb o.ncap ≤ (o.sects i).offset ∧ stop (o.sects i) ≤ o.size
  disjoint : ∀ i ∈ o.ready, ∀ j ∈ o.ready, i ≠ j → solid (o.sects i) → solid (o.sects j) →
    stop (o.sects i) ≤ (o.sects j).offset ∨ stop (o.sects j) ≤ (o.sects i).offset
  refused : ∀ c, Careful o c → early o c → cobjSectInit o.toHeader c = none
  lookup : ∀ i ∈ o.ready, solid (o.sects i) → ∀ v, (o.sects i).vaddr ≤ v → v < top (o.sects i) →
    cobjVaddrGet o.toHeader v = some ((o.sects i).offset + (v - (o.sects i).vaddr))

/-- What a careful initialisation keeps: the first `k` sections are initialised, each behind the one before. -/
structure Chained (sz k : Nat) (o : Object) : Prop where
  fits : o.size ≤ sz
  small : o.size < 2 ^ 32
  tables : tablesSz o.nsect o.nsymb o.ncap ≤ o.size
  ready : ∀ i, i ∈ o.ready ↔ i < k
  bound : k ≤ o.nsect
  blank : ∀ i, k ≤ i → o.sects i = ⟨0, 0, 0, 0⟩
  offset : ∀ i < k, initOffset o.toHeader i = some (o.sects i).offset
  ends : ∀ i < k, solid (o.sects i) → stop (o.sects i) ≤ o.size
  nowrap : ∀ i < k, top (o.sects i) < 2 ^ 32
  apart : ∀ i < k, ∀ j < i, top (o.sects i) ≤ (o.sects j).vaddr ∨ top (o.sects j) ≤ (o.sects i).vaddr

theorem has_uninit (flags : Nat) : has flags cobjSectUninit = false := by simp [has, cobjSectUninit]

theorem initOffset_update {h : Header} {j : Nat} (le : i ≤ j) :
    initOffset { h with sects := update h.sects j s } i = initOffset h i := by
  cases i with
  | zero => rfl
  | succ i => simp [initOffset, update_of_ne (Nat.ne_of_lt le)]

section
variable (hc : Chained sz k o)
include hc

/-- The place behind the first `i` sections. -/
theorem Chained.initOffset_some (le : i ≤ k) : ∃ offset, initOffset o.toHeader i = some offset ∧
    tablesSz o.nsect o.nsymb o.ncap ≤ offset ∧ offset ≤ o.size ∧ ∀ j < i, solid (o.sects j) → stop (o.sects j) ≤ offset := by
  have small := hc.small
  induction i with
  | zero => exact ⟨_, rfl, by grind [cobjSectContentOffset, word, hc.tables]⟩
  | succ i ih =>
    obtain ⟨offset, at_, low, high, before⟩ := ih (Nat.le_of_lt le)
    cases at_.symm.trans (hc.offset i le)
    have ends := hc.ends i le
    refine ⟨_, by simp only [initOffset, has_uninit]; rfl, ?_⟩
    unfold word
    split
    next => grind [solid]
    next solid =>
      have fits := ends solid
      grind [stop]

theorem Chained.behind (mem : i ∈ o.ready) : tablesSz o.nsect o.nsymb o.ncap ≤ (o.sects i).offset ∧
    ∀ j < i, solid (o.sects j) → stop (o.sects j) ≤ (o.sects i).offset := by
  have lt := (hc.ready i).mp mem
  obtain ⟨offset, at_, low, -, before⟩ := hc.initOffset_some (Nat.le_of_lt lt)
  cases at_.symm.trans (hc.offset i lt)
  exact ⟨low, before⟩

/-- Nothing lies before a section whose predecessor is blank, but the section is too large. -/
theorem Chained.refuses (careful : Careful o c) (out : early o c) : cobjSectInit o.toHeader c = none := by
  unfold cobjSectInit
  rcases careful with range | ⟨-, solid, large, small⟩ | ⟨order, -⟩
  · exact if_pos range
  · obtain ⟨i, at_⟩ := Nat.exists_eq_succ_of_ne_zero out.1
    have blank := hc.blank i (Nat.not_lt.mp fun lt => out.2 (by simpa [at_] using (hc.ready i).mpr lt))
    have offset : initOffset o.toHeader c.idx = some 0 := by simp [at_, initOffset, blank, has, word]
    have wide : o.size < word c.size := by rwa [word, Nat.mod_eq_of_lt small]
    simp [offset, solid, wide]
  · exact absurd order (not_or.mpr out)

theorem Chained.laid : Laid o := by
  refine ⟨?_, ?_, ?_, ?_⟩
  · intro i mem solid
    exact ⟨(hc.behind mem).1, hc.ends i ((hc.ready i).mp mem) solid⟩
  · intro i mi j mj ne si sj
    rcases Nat.lt_or_gt_of_ne ne with lt | lt
    · exact .inl ((hc.behind mj).2 i lt si)
    · exact .inr ((hc.behind mi).2 j lt sj)
  · intro c careful out
    exact hc.refuses careful out
  · intro i mem solid v low high
    have lt := (hc.ready i).mp mem
    have inside := Nat.lt_of_lt_of_le lt hc.bound
    have found : (range o.nsect).find? (fun i =>
        (o.sects i).vaddr ≤ v && v < word ((o.sects i).vaddr + (o.sects i).bytes)) = some i := by
      rw [find?_range_eq_some]
      have fits := hc.nowrap i lt
      refine ⟨by grind [word, top], mem_range.mpr inside, fun j lower => ?_⟩
      have apart := hc.apart i lt j lower
      grind [word, top]
    simp only [cobjVaddrGet, found]
    simp [cobjSectContents, Nat.not_le.mpr inside, has_uninit, Bool.eq_false_iff.mpr solid]

theorem Chained.step (careful : Careful o c) {h : Header} (init : cobjSectInit o.toHeader c = some h) :
    Chained sz (c.idx + 1) ⟨h, c.idx :: o.ready⟩ := by
  have ready := hc.ready
  have accepted := init
  unfold cobjSectInit at init
  split at init
  · cases init
  next inside =>
    obtain ⟨order, last, size, nowrap, apart⟩ := (careful.resolve_left inside).resolve_left fun large => by
      simp [hc.refuses careful large.1] at accepted
    have le : c.idx ≤ k := by grind
    obtain ⟨offset, at_, -, high, -⟩ := hc.initOffset_some le
    rw [at_] at init
    obtain ⟨fits, rfl⟩ : _ ∧ _ = h := by simpa using init
    have before : ∀ {i}, i < c.idx → i < k ∧ ∀ s, update o.sects c.idx s i = o.sects i := by
      intro i lt
      exact ⟨Nat.lt_of_lt_of_le lt le, fun s => update_of_ne (Nat.ne_of_lt lt) s o.sects⟩
    have blank : ∀ i, c.idx + 1 ≤ i → update o.sects c.idx ⟨c.flags, offset, c.vaddr, c.size⟩ i = ⟨0, 0, 0, 0⟩ := by
      intro i above
      rw [update_of_ne (Nat.ne_of_gt above)]
      exact hc.blank i (by grind)
    refine ⟨hc.fits, hc.small, hc.tables, by grind, Nat.not_le.mp inside, blank, ?_, ?_, ?_, ?_⟩ <;> intro i lt <;>
      rcases Nat.lt_succ_iff_lt_or_eq.mp lt with lower | rfl
    · rw [initOffset_update (Nat.le_of_lt lower)]
      simpa only [(before lower).2] using hc.offset i (before lower).1
    · simpa [initOffset_update] using at_
    · simpa only [(before lower).2] using hc.ends i (before lower).1
    · have small := hc.small
      grind [solid, stop, word]
    · simpa only [(before lower).2] using hc.nowrap i (before lower).1
    · simpa [top] using nowrap
    · intro j less
      simpa only [(before lower).2, (before (Nat.lt_trans less lower)).2] using hc.apart i (before lower).1 j less
    · intro j less
      simpa [(before less).2, top] using apart j ((ready j).mpr (before less).1) (Nat.ne_of_lt less)

end

/-- While every initialisation is careful, the object is laid out as it should be. -/
theorem object_laid_out (nsect sectSz nsymb ncap space sz : Nat) {h : Header}
    (nowrap : sectSz + tablesSz nsect nsymb ncap < 2 ^ 32)
    (created : cobjCreate nsect sectSz nsymb ncap space sz = some h) (reached : Reachable (objects h) Careful o) :
    sectSz + tablesSz nsect nsymb ncap ≤ sz ∧ o.size ≤ sz ∧ Laid o := by
  obtain ⟨room, ⟨⟩⟩ := Option.ite_none_left_eq_some.mp created
  have size : word (sectSz + tablesSz nsect nsymb ncap) = _ := Nat.mod_eq_of_lt nowrap
  obtain ⟨k, hc⟩ : ∃ k, Chained sz k o := by
    refine reached.invariant (fun o => ∃ k, Chained sz k o) ⟨0, ?_⟩ ?_
    · constructor <;> grind [objects]
    · rintro o c _ ⟨k, hc⟩ careful ⟨⟩
      cases init : cobjSectInit o.toHeader c with
      | none => exact ⟨k, hc⟩
      | some h => exact ⟨_, hc.step careful init⟩
  exact ⟨by omega, hc.fits, hc.laid⟩

/-- Three sections, the second of them all zeros. The third is first tried too early and too large. -/
theorem sections_laid_out : ∃ h, cobjCreate 3 24 0 0 1 200 = some h ∧ ∃ o, Reachable (objects h) Careful o ∧
    o.ready = [2, 1, 0] ∧ (o.sects 0).offset = 136 ∧ (o.sects 2).offset = 144 ∧ Laid o := by
  refine ⟨_, rfl, exec_reaches [⟨0, 1, 4096, 8⟩, ⟨2, 1, 8192, 500⟩, ⟨1, 8, 4104, 100⟩, ⟨2, 1, 8192, 16⟩]
    (fun o => o.ready = [2, 1, 0] ∧ (o.sects 0).offset = 136 ∧ (o.sects 2).offset = 144) (by decide +kernel) ?_⟩
  intro o reached ⟨ready, first, third⟩
  exact ⟨ready, first, third, (object_laid_out 3 24 0 0 1 200 (by decide) rfl reached).2.2⟩

/-- Section 1 is accepted while section 0 is not initialised, and its contents lie over the header. -/
theorem contents_over_header : ∃ h h', cobjCreate 2 8 0 0 1 128 = some h ∧ cobjSectInit h ⟨1, 1, 4096, 8⟩ = some h' ∧
    cobjSectContents h' 1 = some 0 := ⟨_, _, rfl, rfl, rfl⟩

end SuperGlue.Guarantees.ObjectLayout
