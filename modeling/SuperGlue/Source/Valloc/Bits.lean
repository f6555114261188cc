import Mathlib

/-!
# Bitmaps

The part of `include/bitmap.h` that the allocator uses: bits in an array of 32-bit words, and the search for
a run of ones. The search looks at one more bit than the run has, and at the first `4 * max` bits only.
-/
namespace SuperGlue.Source.Valloc.Bits
open Nat

abbrev Word := BitVec 32

def wordSize : Nat := 32

/-- `sizeof(u32_t)`. -/
def wordBytes : Nat := 4

abbrev Bitmap := Nat → Word

def Bitmap.empty : Bitmap := fun _ => 0

/-! ## Words -/

def ones (x : Word) : Word :=
  let x := x - ((x >>> 1) &&& 0x55555555)
  let x := ((x >>> 2) &&& 0x33333333) + (x &&& 0x33333333)
  let x := ((x >>> 4) + x) &&& 0x0F0F0F0F
  let x := x + (x >>> 8)
  let x := x + (x >>> 16)
  x &&& 0x3f

/-- `ls_one`. -/
def lsOne (x : Word) : Word := x &&& -x

/-- `_log32`. -/
def log32 (x : Word) : Nat :=
  let y := x &&& (x - 1)
  let y := y ||| -y
  let y := y >>> (wordSize - 1)
  let x := x ||| (x >>> 1)
  let x := x ||| (x >>> 2)
  let x := x ||| (x >>> 4)
  let x := x ||| (x >>> 8)
  let x := x ||| (x >>> 16)
  (ones (x >>> 1) - y).toNat

/-! ## Bits -/

variable (x : Bitmap)

def bitmapSet (v : Nat) : Bitmap := fun i =>
  if i = v / wordSize then x i ||| ((1 : Word) <<< (v % wordSize)) else x i

def bitmapUnset (v : Nat) : Bitmap := fun i =>
  if i = v / wordSize then x i &&& ~~~((1 : Word) <<< (v % wordSize)) else x i

/-- `bitmap_check`. -/
def bitmapCheck (v : Nat) : Bool := (x (v / wordSize)).getLsbD (v % wordSize)

def bitmapSetContig (x : Bitmap) (off : Nat) : Nat → Bool → Bitmap
  | 0, _ => x
  | extent + 1, one => bitmapSetContig (if one then bitmapSet x off else bitmapUnset x off) (off + 1) extent one

/-- `bitmap_one`, with `none` for -1. -/
def bitmapOne (x : Bitmap) : Nat → Option Nat
  | 0 => none
  | max + 1 =>
    if x 0 = 0 then (bitmapOne (fun i => x (i + 1)) max).map (· + wordSize)
    else some (log32 (lsOne (x 0)))

def bitmapOneOffset (off max : Nat) : Option Nat :=
  let subword := off % wordSize
  let words := off / wordSize
  let rest := fun words => (bitmapOne (fun i => x (words + i)) (max - words)).map (· + words * wordSize)
  if subword = 0 then rest words
  else
    let v := x words >>> subword
    if v = 0 then rest (words + 1) else some (log32 (lsOne v) + off)

/-- The loop of `bitmap_contiguous_ones` at `i`; its parameter `off` is not used. -/
def contiguousLoop (x : Bitmap) (extent max : Nat) : Nat → Nat → Nat → Option Nat
  | 0, _, _ => none
  | fuel + 1, i, start =>
    if max * wordBytes ≤ i then none
    else
      match bitmapOneOffset x i max with
      | none => none
      | some next =>
        if next ≠ i then contiguousLoop x extent max fuel (next + 1) next
        else if i - start = extent then some start
        else contiguousLoop x extent max fuel (i + 1) start

def bitmapContiguousOnes (extent max : Nat) : Option Nat :=
  contiguousLoop x extent max (max * wordBytes + 1) 0 0

/-- `bitmap_extent_find_set`: the run that is found is set to zero. -/
def bitmapExtentFindSet (extent max : Nat) : Option (Bitmap × Nat) :=
  (bitmapContiguousOnes x extent max).map fun r => (bitmapSetContig x r extent false, r)

/-! ## What they do -/

theorem log32_twoPow : ∀ k : Fin 32, log32 (BitVec.twoPow 32 k) = k := by
  decide +kernel

/-- The lowest bit that is set. -/
theorem lsOne_eq {x : Word} (nonzero : x ≠ 0) :
    ∃ k < 32, x.getLsbD k ∧ (∀ j < k, ¬ x.getLsbD j) ∧ lsOne x = BitVec.twoPow 32 k := by
  have some_bit : ∃ k, x.getLsbD k := by
    by_contra none_set
    push Not at none_set
    apply nonzero
    apply BitVec.eq_of_getLsbD_eq
    intro i inside
    simpa using none_set i
  obtain ⟨k, set, least⟩ : ∃ k, x.getLsbD k ∧ ∀ j < k, ¬ x.getLsbD j :=
    ⟨Nat.find some_bit, Nat.find_spec some_bit, fun j below => Nat.find_min some_bit below⟩
  have inside : k < 32 := BitVec.lt_of_getLsbD set
  refine ⟨k, inside, set, least, ?_⟩
  apply BitVec.eq_of_getLsbD_eq
  intro i below
  rw [lsOne, BitVec.getLsbD_and, BitVec.getLsbD_neg, BitVec.getLsbD_twoPow]
  rcases lt_trichotomy i k with before | rfl | after
  · simp [least i before, before.ne']
  · have first : ¬ ∃ j < i, x.getLsbD j := fun ⟨j, lower, bit⟩ => least j lower bit
    simp [set, inside, first]
  · have earlier : ∃ j < i, x.getLsbD j := ⟨k, after, set⟩
    simp [below, earlier, after.ne]

theorem log32_lsOne {x : Word} (nonzero : x ≠ 0) : x.getLsbD (log32 (lsOne x)) := by
  obtain ⟨k, inside, set, -, eq⟩ := lsOne_eq nonzero
  rw [eq, log32_twoPow ⟨k, inside⟩]
  exact set

theorem log32_lsOne_le {x : Word} {j : Nat} (set : x.getLsbD j) : log32 (lsOne x) ≤ j := by
  have nonzero : x ≠ 0 := by
    rintro rfl
    simp at set
  obtain ⟨k, inside, -, least, eq⟩ := lsOne_eq nonzero
  rw [eq, log32_twoPow ⟨k, inside⟩]
  exact not_lt.mp fun before => least j before set

theorem one_shifted (n i : Nat) : ((1 : Word) <<< (n % wordSize)).getLsbD i = decide (n % wordSize = i) := by
  have inside : n % wordSize < 32 := mod_lt n (by decide)
  change ((1#32) <<< (n % wordSize)).getLsbD i = _
  rw [← BitVec.twoPow_eq]
  simp [inside]

theorem bitmapSet_check (v u : Nat) : bitmapCheck (bitmapSet x v) u = (decide (u = v) || bitmapCheck x u) := by
  unfold bitmapCheck bitmapSet
  split
  next word =>
    rw [BitVec.getLsbD_or, one_shifted, Bool.or_comm]
    congr 1
    have same : v % wordSize = u % wordSize ↔ u = v := ⟨fun bit => ext_div_mod word bit.symm, fun eq => eq ▸ rfl⟩
    simp [same]
  next other =>
    have ne : u ≠ v := fun eq => other (eq ▸ rfl)
    simp [ne]

theorem bitmapUnset_check (v u : Nat) : bitmapCheck (bitmapUnset x v) u = (!decide (u = v) && bitmapCheck x u) := by
  unfold bitmapCheck bitmapUnset
  split
  next word =>
    have inside : u % wordSize < 32 := mod_lt u (by decide)
    rw [BitVec.getLsbD_and, BitVec.getLsbD_not, one_shifted, Bool.and_comm]
    have same : v % wordSize = u % wordSize ↔ u = v := ⟨fun bit => ext_div_mod word bit.symm, fun eq => eq ▸ rfl⟩
    simp [same, inside]
  next other =>
    have ne : u ≠ v := fun eq => other (eq ▸ rfl)
    simp [ne]

theorem bitmapMark_check (v u : Nat) (one : Bool) :
    bitmapCheck (if one then bitmapSet x v else bitmapUnset x v) u = if u = v then one else bitmapCheck x u := by
  cases one with
  | true =>
    rw [if_pos rfl, bitmapSet_check]
    by_cases eq : u = v <;> simp [eq]
  | false =>
    rw [if_neg (by decide), bitmapUnset_check]
    by_cases eq : u = v <;> simp [eq]

theorem bitmapSetContig_check (off extent : Nat) (one : Bool) (u : Nat) :
    bitmapCheck (bitmapSetContig x off extent one) u = if off ≤ u ∧ u < off + extent then one else bitmapCheck x u := by
  induction extent generalizing x off with
  | zero =>
    rw [bitmapSetContig, if_neg]
    omega
  | succ extent ih =>
    rw [bitmapSetContig, ih, bitmapMark_check]
    split
    · rw [if_pos]
      omega
    · split
      · rw [if_pos]
        omega
      · rw [if_neg]
        omega

variable {x : Bitmap} {max : Nat}

theorem bitmapOne_check {k : Nat} (found : bitmapOne x max = some k) : bitmapCheck x k := by
  induction max generalizing x k with
  | zero => contradiction
  | succ max ih =>
    rw [bitmapOne] at found
    split at found
    · obtain ⟨j, later, rfl⟩ := Option.map_eq_some_iff.mp found
      have bit := ih later
      unfold bitmapCheck at bit ⊢
      have word : (j + wordSize) / wordSize = j / wordSize + 1 := add_div_right j (by decide)
      rw [word, add_mod_right]
      exact bit
    next nonzero =>
      cases found
      have bit := log32_lsOne nonzero
      have inside : log32 (lsOne (x 0)) < wordSize := BitVec.lt_of_getLsbD bit
      rw [bitmapCheck, div_eq_of_lt inside, mod_eq_of_lt inside]
      exact bit

/-- The search does not pass a bit that is set. -/
theorem bitmapOne_le {j : Nat} (inside : j < max * wordSize) (set : bitmapCheck x j) :
    ∃ k ≤ j, bitmapOne x max = some k := by
  induction max generalizing x j with
  | zero => simp at inside
  | succ max ih =>
    rw [bitmapOne]
    rw [bitmapCheck] at set
    split
    next zero =>
      -- the first word is passed, so the bit is in a later one
      have after : wordSize ≤ j := by
        by_contra before
        rw [div_eq_of_lt (not_le.mp before), zero] at set
        simp at set
      have word : j / wordSize = (j - wordSize) / wordSize + 1 := by
        rw [← Nat.add_div_right _ (by decide), Nat.sub_add_cancel after]
      have rest : bitmapCheck (fun i => x (i + 1)) (j - wordSize) := by
        rw [bitmapCheck, ← word, ← mod_eq_sub_mod after]
        exact set
      rw [succ_mul] at inside
      obtain ⟨k, le, found⟩ := ih (by omega) rest
      exact ⟨k + wordSize, by omega, by rw [found, Option.map_some]⟩
    next nonzero =>
      refine ⟨_, ?_, rfl⟩
      by_cases first : j < wordSize
      · rw [div_eq_of_lt first, mod_eq_of_lt first] at set
        exact log32_lsOne_le set
      · have small : log32 (lsOne (x 0)) < wordSize := BitVec.lt_of_getLsbD (log32_lsOne nonzero)
        omega

theorem bitmapOneOffset_check {off k : Nat} (found : bitmapOneOffset x off max = some k) :
    off ≤ k ∧ bitmapCheck x k := by
  have rest : ∀ words, off ≤ words * wordSize →
      (bitmapOne (fun i => x (words + i)) (max - words)).map (· + words * wordSize) = some k →
      off ≤ k ∧ bitmapCheck x k := by
    intro words after run
    obtain ⟨j, later, rfl⟩ := Option.map_eq_some_iff.mp run
    have bit := bitmapOne_check later
    refine ⟨by omega, ?_⟩
    unfold bitmapCheck at bit ⊢
    have word : (j + words * wordSize) / wordSize = words + j / wordSize := by
      rw [add_mul_div_right j words (by decide), add_comm]
    rw [word, add_mul_mod_self_right]
    exact bit
  have parts := div_add_mod off wordSize
  have small : off % wordSize < wordSize := mod_lt off (by decide)
  simp only [bitmapOneOffset] at found
  split at found
  · apply rest _ _ found
    rw [mul_comm]
    omega
  split at found
  · apply rest _ _ found
    rw [add_mul, mul_comm]
    omega
  rename_i nonzero
  cases found
  have bit := log32_lsOne nonzero
  rw [BitVec.getLsbD_ushiftRight] at bit
  have inside : off % wordSize + log32 (lsOne (x (off / wordSize) >>> (off % wordSize))) < wordSize :=
    BitVec.lt_of_getLsbD bit
  generalize log32 (lsOne (x (off / wordSize) >>> (off % wordSize))) = j at bit inside ⊢
  refine ⟨Nat.le_add_left .., ?_⟩
  have whole : j + off = off % wordSize + j + off / wordSize * wordSize := by
    rw [mul_comm]
    omega
  rw [bitmapCheck, whole, add_mul_div_right _ _ (by decide), div_eq_of_lt inside,
    add_mul_mod_self_right, mod_eq_of_lt inside, zero_add]
  exact bit

/-- What has been passed since `start` is ones. -/
theorem contiguousLoop_ones {extent fuel i start r : Nat} (before : start ≤ i)
    (ones : ∀ v, start ≤ v → v < i → bitmapCheck x v) (found : contiguousLoop x extent max fuel i start = some r) :
    ∀ v, r ≤ v → v ≤ r + extent → bitmapCheck x v := by
  induction fuel generalizing i start with
  | zero => contradiction
  | succ fuel ih =>
    rw [contiguousLoop] at found
    split at found
    · contradiction
    split at found
    · contradiction
    rename_i next run
    obtain ⟨later, bit⟩ := bitmapOneOffset_check run
    split at found
    · refine ih (le_succ next) ?_ found
      intro v low high
      obtain rfl : v = next := by omega
      exact bit
    rename_i here
    obtain rfl : next = i := not_not.mp here
    have longer : ∀ v, start ≤ v → v < next + 1 → bitmapCheck x v := by
      intro v low high
      by_cases last : v = next
      · exact last ▸ bit
      · exact ones v low (by omega)
    split at found
    next length =>
      cases found
      intro v low high
      exact longer v low (by omega)
    · exact ih (by omega) longer found

theorem bitmapContiguousOnes_ones {extent r : Nat} (found : bitmapContiguousOnes x extent max = some r) :
    ∀ v, r ≤ v → v ≤ r + extent → bitmapCheck x v :=
  contiguousLoop_ones (le_refl 0) (fun v _ high => absurd high (not_lt_zero v)) found

end SuperGlue.Source.Valloc.Bits
