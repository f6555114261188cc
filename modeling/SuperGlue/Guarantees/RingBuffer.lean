import SuperGlue.Lib.Transition
import SuperGlue.Source.Ringbuf.Buffer

/-!
# The ring buffer is a bounded queue

The bytes between `head` and `tail` are the queue. Nothing is ever wrong with `consume`. `produce` may fill the
memory up to its end even if the oldest byte is at its start, and then runs into its own assertion, as it does
when it adds nothing to an empty buffer.
-/
namespace SuperGlue.Guarantees.RingBuffer
open Int Option List Lib.Memory Lib.Transition Source.Ringbuf.Buffer

/-- The bytes that are queued, oldest first. -/
def contents (rb : Cringbuf) : List UInt8 :=
  if rb.head ≤ rb.tail then load rb.buffer rb.head (rb.tail - rb.head).toNat
  else load rb.buffer rb.head (rb.sz - rb.head).toNat ++ load rb.buffer 0 rb.tail.toNat

/-- The cell holds a queued byte. -/
def Active (rb : Cringbuf) (i : Int) : Prop :=
  if rb.head ≤ rb.tail then rb.head ≤ i ∧ i < rb.tail else rb.head ≤ i ∨ i < rb.tail

structure Sound (cautious : Bool) (rb : Cringbuf) : Prop where
  head : 0 ≤ rb.head ∧ rb.head < rb.sz
  tail : 0 ≤ rb.tail ∧ rb.tail < rb.sz
  clear : cautious = true → ∀ i, 0 ≤ i → i < rb.sz → ¬ Active rb i → rb.buffer i = 0

variable {cautious : Bool} {rb rb' : Cringbuf} {amnt : Int}

/-- Bytes up to the end of the memory. -/
def extent (rb : Cringbuf) : Int :=
  if rb.head < rb.tail then rb.tail - rb.head else if rb.head = rb.tail then 0 else rb.sz - rb.head

def advance (rb : Cringbuf) (i l : Int) : Int := if i + l = rb.sz then 0 else i + l

theorem activeExtent_eq (nonempty : rb.head ≠ rb.tail) :
    cringbufActiveExtent rb amnt = some (rb.head, min amnt (extent rb)) := by
  have least : ∀ len : Int, (if amnt < len then amnt else len) = min amnt len := by
    intro len
    omega
  simp [cringbufActiveExtent, cringbufEmpty, if_neg nonempty, least, extent]

theorem take_drop_eq (ys zs : List UInt8) {n : Nat} (length : ys.length = min n (ys ++ zs).length) :
    (ys ++ zs).take n = ys ∧ (ys ++ zs).drop n = zs := by
  rw [length_append] at length
  by_cases exactly : ys.length = n
  · exact ⟨take_left' exactly, drop_left' exactly⟩
  · obtain rfl : zs = [] := length_eq_zero_iff.mp (by omega)
    rw [append_nil, take_of_length_le (by omega), drop_of_length_le (by omega)]
    exact ⟨rfl, rfl⟩

/-- Room up to the end of the memory. -/
def room (rb : Cringbuf) : Int := if rb.head ≤ rb.tail then rb.sz - rb.tail else rb.head - rb.tail - 1

/-- The condition on `produce`: if there is any room, then the last cell is not filled while the oldest byte
is in the first one, and an empty buffer gets at least one byte. -/
def Fits (rb : Cringbuf) (amnt : Int) : Prop :=
  cringbufEmptySz rb = 0 ∨ ((amnt ≠ 0 ∨ rb.head ≠ rb.tail) ∧ (rb.head ≠ 0 ∨ amnt ≤ cringbufEmptySz rb))

instance (rb : Cringbuf) (amnt : Int) : Decidable (Fits rb amnt) := inferInstanceAs (Decidable (_ ∨ _))

/-- The number of bytes that one copy stores. -/
def step (rb : Cringbuf) (amnt : Int) : Int := if cringbufEmptySz rb = 0 then 0 else min amnt (room rb)

theorem take_min (b : List UInt8) (n : Int) : b.take (min (b.length : Int) n).toNat = b.take n.toNat := by
  rw [take_eq_take_iff]
  omega

section

variable (h : Sound cautious rb)
include h

theorem Sound.size : (contents rb).length = cringbufSz rb := by
  have ⟨head, tail, _⟩ := h
  unfold contents cringbufSz
  split
  · rw [length_load]
    omega
  · rw [length_append, length_load, length_load]
    omega

theorem Sound.sz_lt : 0 ≤ cringbufSz rb ∧ cringbufSz rb < rb.sz := by
  have ⟨head, tail, _⟩ := h
  unfold cringbufSz
  split <;> omega

/-! ## `consume` -/

theorem Sound.extent_le : 0 ≤ extent rb ∧ rb.head + extent rb ≤ rb.sz := by
  have ⟨head, tail, _⟩ := h
  unfold extent
  split
  · omega
  · split <;> omega

theorem delete_eq (nonempty : rb.head ≠ rb.tail) {l : Int} (fits : l ≤ extent rb) :
    cringbufDelete rb l = some { rb with head := advance rb rb.head l } := by
  have inside : rb.head + l ≤ rb.sz := by
    have bound := h.extent_le
    omega
  rw [cringbufDelete, activeExtent_eq nonempty, Int.min_eq_left fits]
  simp only [Int.le_refl, inside]
  rfl

variable {l : Nat} {buffer : Int → UInt8}

/-- Taking `l` bytes off the front, where the memory of the bytes that stay is the same. -/
theorem contents_advance (fits : (l : Int) ≤ extent rb)
    (same : ∀ i, 0 ≤ i → i < rb.sz → ¬ (rb.head ≤ i ∧ i < rb.head + l) → buffer i = rb.buffer i) :
    contents rb = load rb.buffer rb.head l ++ contents { rb with head := advance rb rb.head l, buffer } := by
  have ⟨head, tail, _⟩ := h
  unfold extent at fits
  unfold contents advance
  dsimp only
  by_cases straight : rb.head ≤ rb.tail
  · have short : rb.head + l ≤ rb.tail := by
      split at fits
      · omega
      · split at fits <;> omega
    rw [if_pos straight, if_neg (by omega : ¬ rb.head + (l : Int) = rb.sz), if_pos short]
    have parts : (rb.tail - rb.head).toNat = l + (rb.tail - (rb.head + l)).toNat := by omega
    rw [parts, load_add]
    congr 1
    exact (load_congr fun i low high => same i (by omega) (by omega) (by omega)).symm
  · have start : load buffer 0 rb.tail.toNat = load rb.buffer 0 rb.tail.toNat :=
      load_congr fun i low high => same i (by omega) (by omega) (by omega)
    rw [if_neg straight]
    by_cases wraps : rb.head + (l : Int) = rb.sz
    · have whole : (rb.sz - rb.head).toNat = l := by omega
      rw [if_pos wraps, if_pos (by omega), whole, Int.sub_zero, start]
    · have parts : (rb.sz - rb.head).toNat = l + (rb.sz - (rb.head + l)).toNat := by omega
      have rest : load buffer (rb.head + l) (rb.sz - (rb.head + l)).toNat =
          load rb.buffer (rb.head + l) (rb.sz - (rb.head + l)).toNat :=
        load_congr fun i low high => same i (by omega) (by omega) (by omega)
      rw [if_neg wraps, if_neg (by omega), parts, load_add, append_assoc, start, rest]

theorem sound_advance (fits : (l : Int) ≤ extent rb)
    (cleared : cautious → ∀ i, buffer i = if rb.head ≤ i ∧ i < rb.head + l then 0 else rb.buffer i) :
    Sound cautious { rb with head := advance rb rb.head l, buffer } := by
  have ⟨head, tail, _⟩ := h
  have bound := h.extent_le
  have moved : advance rb rb.head l = if rb.head + l = rb.sz then 0 else rb.head + l := rfl
  refine ⟨?_, tail, ?_⟩
  · dsimp only
    rw [moved]
    split <;> omega
  intro on i low high inactive
  change buffer i = 0
  rw [cleared on]
  split
  · rfl
  apply h.clear on i low high
  unfold Active at inactive ⊢
  grind

/-- One copy out of the buffer. -/
theorem consumeSome_spec (pos : 0 ≤ amnt) :
    ∃ rb' b, ringbufConsumeSome cautious rb amnt = some (rb', b) ∧ Sound cautious rb' ∧ rb'.sz = rb.sz ∧
      rb'.tail = rb.tail ∧ rb'.head = advance rb rb.head b.length ∧ (b.length : Int) = min amnt (extent rb) ∧
      contents rb = b ++ contents rb' := by
  have head := h.head
  have bound := h.extent_le
  by_cases empty : rb.head = rb.tail
  · refine ⟨rb, [], ?_, h, rfl, rfl, ?_, ?_, rfl⟩
    · simp [ringbufConsumeSome, cringbufActiveExtent, cringbufEmpty, empty]
    · rw [advance, if_neg (by simp; omega)]
      simp
    · have nothing : extent rb = 0 := by simp [extent, empty]
      simp
      omega
  · obtain ⟨l, eq⟩ : ∃ l : Nat, min amnt (extent rb) = l := ⟨(min amnt (extent rb)).toNat, by omega⟩
    have fits : (l : Int) ≤ extent rb := by omega
    have run : ringbufConsumeSome cautious rb amnt =
        some ({ rb with
          head := advance rb rb.head l
          buffer := if cautious then store rb.buffer rb.head (List.replicate l 0) else rb.buffer },
          load rb.buffer rb.head l) := by
      rw [ringbufConsumeSome, activeExtent_eq empty, eq]
      simp only [delete_eq h empty fits]
      cases cautious <;> rfl
    refine ⟨_, _, run, sound_advance h fits ?_, rfl, rfl, ?_, ?_, contents_advance h fits ?_⟩
    · intro on i
      rw [if_pos on, store_replicate]
    · rw [length_load]
    · rw [length_load, eq]
    · intro i low high outside
      cases cautious with
      | true => rw [if_pos rfl, store_replicate, if_neg outside]
      | false => rfl

/-- `consume` removes the oldest bytes and returns them. -/
theorem consume_spec (amnt : Nat) :
    ∃ rb', cringbufConsume cautious rb amnt = some (rb', (contents rb).take amnt) ∧ Sound cautious rb' ∧
      rb'.sz = rb.sz ∧ contents rb' = (contents rb).drop amnt := by
  obtain ⟨rb1, b, run1, h1, sz1, tail1, head1, length1, contents1⟩ := consumeSome_spec h (natCast_nonneg amnt)
  have size1 := h1.size
  have sum : ((contents rb).length : Int) = b.length + (contents rb1).length := by
    rw [contents1, length_append, natCast_add]
  by_cases enough : (amnt : Int) - b.length = 0
  · have split := take_drop_eq (n := amnt) b (contents rb1) (by rw [length_append]; omega)
    rw [← contents1] at split
    refine ⟨rb1, ?_, h1, sz1, split.2.symm⟩
    rw [cringbufConsume, run1, split.1]
    simp [enough]
  · have left : 0 ≤ (amnt : Int) - b.length := by omega
    obtain ⟨rb2, b', run2, h2, sz2, -, -, length2, contents2⟩ := consumeSome_spec h1 left
    -- the first copy stopped at the end of the memory, so the second one starts at 0
    have rest : extent rb1 = cringbufSz rb1 := by
      have tail := h.tail
      unfold extent advance cringbufSz at *
      grind
    have split := take_drop_eq (n := amnt) (b ++ b') (contents rb2) (by
      rw [append_assoc, ← contents2, ← contents1, length_append]
      omega)
    rw [append_assoc, ← contents2, ← contents1] at split
    refine ⟨rb2, ?_, h2, sz2.trans sz1, split.2.symm⟩
    rw [cringbufConsume, run1, split.1]
    simp [enough, run2]

/-! ## `produce` -/

theorem Sound.full_eq : cringbufFull rb = some (decide (cringbufEmptySz rb = 0)) := by
  have bound := h.sz_lt
  have same : cringbufSz rb = rb.sz - 1 ↔ cringbufEmptySz rb = 0 := by
    unfold cringbufEmptySz
    omega
  rw [cringbufFull, if_pos (by omega), some.injEq, Bool.eq_iff_iff, beq_iff_eq, decide_eq_true_eq, same]

theorem inactiveExtent_eq : cringbufInactiveExtent rb amnt =
      some (if cringbufEmptySz rb = 0 then none else some (rb.tail, min amnt (room rb))) := by
  have least : ∀ len : Int, (if amnt < len then amnt else len) = min amnt len := by
    intro len
    omega
  simp [cringbufInactiveExtent, h.full_eq, least, room]

section
variable (free : cringbufEmptySz rb ≠ 0)
include free

theorem Sound.room_le : 0 < room rb ∧ rb.tail + room rb ≤ rb.sz := by
  have ⟨head, tail, _⟩ := h
  unfold cringbufEmptySz cringbufSz at free
  unfold room
  split
  · omega
  next wrapped =>
    omega

/-- The two assertions on the new tail. -/
theorem add_eq {l : Int} (fits : l ≤ room rb) : cringbufAdd rb l = if advance rb rb.tail l = rb.head then none
      else some { rb with tail := advance rb rb.tail l } := by
  have tail := h.tail
  have bound := h.room_le free
  have inside : rb.tail + l ≤ rb.sz := by omega
  rw [cringbufAdd, inactiveExtent_eq h, if_neg free, Int.min_eq_left fits]
  simp only [Int.le_refl, inside]
  change (if advance rb rb.tail l ≠ rb.head ∧ advance rb rb.tail l < rb.sz then _ else none) = _
  have below : advance rb rb.tail l < rb.sz := by
    unfold advance
    split <;> omega
  by_cases meets : advance rb rb.tail l = rb.head
  · rw [if_neg (by simp [meets]), if_pos meets]
  · rw [if_pos ⟨meets, below⟩, if_neg meets]
    rfl

/-- The new tail does not meet the head. -/
theorem fits_iff (pos : 0 ≤ amnt) : Fits rb amnt ↔ advance rb rb.tail (min amnt (room rb)) ≠ rb.head := by
  have tail := h.tail
  unfold Fits cringbufEmptySz cringbufSz room advance at *
  grind

end

section

variable (fits : (l : Int) ≤ room rb) (apart : advance rb rb.tail l ≠ rb.head)
  (same : ∀ i, 0 ≤ i → i < rb.sz → ¬ (rb.tail ≤ i ∧ i < rb.tail + l) → buffer i = rb.buffer i)
include fits apart same

/-- Appending `l` bytes, where the memory of the bytes before is the same. -/
theorem contents_append :
    contents { rb with tail := advance rb rb.tail l, buffer } = contents rb ++ load buffer rb.tail l := by
  have ⟨head, tail, _⟩ := h
  unfold room at fits
  unfold advance at apart
  unfold contents advance
  dsimp only
  by_cases straight : rb.head ≤ rb.tail
  · rw [if_pos straight] at fits ⊢
    have before : load buffer rb.head (rb.tail - rb.head).toNat = load rb.buffer rb.head (rb.tail - rb.head).toNat :=
      load_congr fun i low high => same i (by omega) (by omega) (by omega)
    have place : rb.head + ((rb.tail - rb.head).toNat : Int) = rb.tail := by omega
    have joined := load_add buffer rb.head (rb.tail - rb.head).toNat l
    rw [before, place] at joined
    by_cases wraps : rb.tail + (l : Int) = rb.sz
    · have whole : (rb.sz - rb.head).toNat = (rb.tail - rb.head).toNat + l := by omega
      rw [if_pos wraps] at apart ⊢
      rw [if_neg (by omega), whole, joined]
      simp [load]
    · have whole : (rb.tail + l - rb.head).toNat = (rb.tail - rb.head).toNat + l := by omega
      rw [if_neg wraps, if_pos (by omega), whole, joined]
  · rw [if_neg straight] at fits ⊢
    have end_same : load buffer rb.head (rb.sz - rb.head).toNat = load rb.buffer rb.head (rb.sz - rb.head).toNat :=
      load_congr fun i low high => same i (by omega) (by omega) (by omega)
    have start_same : load buffer 0 rb.tail.toNat = load rb.buffer 0 rb.tail.toNat :=
      load_congr fun i low high => same i (by omega) (by omega) (by omega)
    have whole : (rb.tail + l).toNat = rb.tail.toNat + l := by omega
    have place : 0 + (rb.tail.toNat : Int) = rb.tail := by omega
    rw [if_neg (by omega), if_neg (by omega), whole, load_add, place, end_same, start_same, append_assoc]

theorem sound_append : Sound cautious { rb with tail := advance rb rb.tail l, buffer } := by
  have ⟨head, tail, _⟩ := h
  have moved : advance rb rb.tail l = if rb.tail + l = rb.sz then 0 else rb.tail + l := rfl
  unfold room at fits
  refine ⟨head, ?_, ?_⟩
  · dsimp only
    rw [moved]
    split
    · omega
    · split at fits <;> omega
  · intro on i low high inactive
    change buffer i = 0
    have old := h.clear on i low high
    unfold Active at inactive old
    rw [same i low high (by grind)]
    exact old (by grind)

end

/-- Room that is not used for a byte is clear. -/
theorem Sound.clear_room (fits : (l : Int) ≤ room rb) :
    (cautious && (load rb.buffer rb.tail l).any (· != 0)) = false := by
  have ⟨head, tail, _⟩ := h
  cases on : cautious with
  | false => rfl
  | true =>
    have zeros : load rb.buffer rb.tail l = List.replicate l 0 := by
      apply load_eq_replicate
      intro i low high
      unfold room at fits
      apply h.clear on i (by omega) (by split at fits <;> omega)
      unfold Active
      split at fits <;> grind
    rw [zeros]
    simp

/-- One copy into the buffer. -/
theorem produceSome_eq (free : cringbufEmptySz rb ≠ 0) (b : List UInt8) (length : min amnt (room rb) = l) :
    ringbufProduceSome cautious rb b amnt = if advance rb rb.tail l = rb.head then none
      else some ({ rb with tail := advance rb rb.tail l, buffer := store rb.buffer rb.tail (b.take l) }, (l : Int)) := by
  have tail := h.tail
  have bound := h.room_le free
  have fits : (l : Int) ≤ room rb := by omega
  have clear := h.clear_room fits
  have below : advance rb rb.tail l < rb.sz := by
    unfold advance
    split <;> omega
  have stored : Sound false { rb with buffer := store rb.buffer rb.tail (b.take l) } :=
    ⟨h.head, h.tail, fun on => absurd on (by decide)⟩
  rw [ringbufProduceSome, inactiveExtent_eq h, if_neg free, length]
  simp only [toNat_natCast, clear, Bool.false_eq_true, if_false]
  have added : cringbufAdd { rb with buffer := store rb.buffer rb.tail (b.take l) } l =
      if advance rb rb.tail l = rb.head then none
      else some { rb with tail := advance rb rb.tail l, buffer := store rb.buffer rb.tail (b.take l) } :=
    add_eq stored free fits
  rw [if_pos (by omega), added]
  by_cases meets : advance rb rb.tail l = rb.head
  · rw [if_pos meets, if_pos meets]
  · rw [if_neg meets, if_neg meets]
    exact if_pos below

theorem Sound.step_bounds (pos : 0 ≤ amnt) : 0 ≤ step rb amnt ∧ step rb amnt ≤ amnt := by
  unfold step
  split
  · omega
  next free =>
    have bound := h.room_le free
    omega

variable {b : List UInt8}

theorem produceSome_spec (fits : Fits rb b.length) :
    ∃ rb', ringbufProduceSome cautious rb b b.length = some (rb', step rb b.length) ∧ Sound cautious rb' ∧
      rb'.sz = rb.sz ∧ rb'.head = rb.head ∧ rb'.tail = advance rb rb.tail (step rb b.length) ∧
      contents rb' = contents rb ++ b.take (step rb b.length).toNat := by
  have tail := h.tail
  by_cases full : cringbufEmptySz rb = 0
  · have nothing : step rb b.length = 0 := if_pos full
    rw [nothing]
    refine ⟨rb, by rw [ringbufProduceSome, inactiveExtent_eq h, if_pos full], h, rfl, rfl, ?_, ?_⟩
    · rw [advance, if_neg (by omega), Int.add_zero]
    · simp
  · have bound := h.room_le full
    have amount : step rb b.length = min (b.length : Int) (room rb) := if_neg full
    obtain ⟨l, eq⟩ : ∃ l : Nat, min (b.length : Int) (room rb) = l := ⟨(min (b.length : Int) (room rb)).toNat, by omega⟩
    have apart := (fits_iff h full (natCast_nonneg _)).mp fits
    rw [eq] at amount apart
    have inside : (l : Int) ≤ room rb := by omega
    have taken : (b.take l).length = l := by
      rw [length_take]
      omega
    have same : ∀ i, 0 ≤ i → i < rb.sz → ¬ (rb.tail ≤ i ∧ i < rb.tail + l) →
        store rb.buffer rb.tail (b.take l) i = rb.buffer i := by
      intro i _ _ outside
      apply store_outside
      omega
    rw [amount, produceSome_eq h full b eq, if_neg apart, toNat_natCast]
    refine ⟨_, rfl, sound_append h inside apart same, rfl, rfl, rfl, ?_⟩
    rw [contents_append h inside apart same]
    have copied := load_store rb.buffer rb.tail (b.take l)
    rw [taken] at copied
    rw [copied]

/-- Where the first copy stops, there is the end of the room or of the memory. -/
theorem step_twice (pos : 0 ≤ amnt) (fits : Fits rb amnt) (sz : rb'.sz = rb.sz)
    (head : rb'.head = rb.head) (tail : rb'.tail = advance rb rb.tail (step rb amnt))
    (left : amnt - step rb amnt ≠ 0) : Fits rb' (amnt - step rb amnt) ∧
      step rb amnt + step rb' (amnt - step rb amnt) = min amnt (cringbufEmptySz rb) := by
  have head_bound := h.head
  unfold Fits step room advance cringbufEmptySz cringbufSz at *
  grind

theorem step_once (fits : Fits rb amnt) (all : amnt - step rb amnt = 0) :
    step rb amnt = min amnt (cringbufEmptySz rb) := by
  have head := h.head
  unfold Fits step room cringbufEmptySz cringbufSz at *
  grind

/-- `produce` completes if the condition holds, and then stores as many bytes as there is room for. -/
theorem produce_spec (fits : Fits rb b.length) :
    ∃ rb', cringbufProduce cautious rb b b.length = some (rb', min (b.length : Int) (cringbufEmptySz rb)) ∧
      Sound cautious rb' ∧ rb'.sz = rb.sz ∧ contents rb' = contents rb ++ b.take (cringbufEmptySz rb).toNat := by
  obtain ⟨rb1, run1, h1, sz1, head1, tail1, contents1⟩ := produceSome_spec h fits
  by_cases all : (b.length : Int) - step rb b.length = 0
  · have amount := step_once h fits all
    rw [amount, take_min] at contents1
    refine ⟨rb1, ?_, h1, sz1, contents1⟩
    rw [cringbufProduce, run1]
    simp [all]
    omega
  · obtain ⟨fits1, amount⟩ := step_twice h (natCast_nonneg _) fits sz1 head1 tail1 all
    have pos : 0 ≤ step rb b.length ∧ step rb b.length ≤ b.length := h.step_bounds (natCast_nonneg _)
    have rest : ((b.drop (step rb b.length).toNat).length : Int) = b.length - step rb b.length := by
      rw [length_drop]
      omega
    have positive1 := h1.step_bounds (natCast_nonneg (b.drop (step rb b.length).toNat).length)
    rw [← rest] at fits1 amount
    obtain ⟨rb2, run2, h2, sz2, -, -, contents2⟩ := produceSome_spec h1 fits1
    refine ⟨rb2, ?_, h2, sz2.trans sz1, ?_⟩
    · rw [rest] at run2 amount
      rw [cringbufProduce, run1]
      simp only [ne_eq, all, not_false_eq_true, if_true, Int.sub_sub_self, run2, map_some,
        some.injEq, Prod.mk.injEq, true_and]
      omega
    · rw [contents2, contents1, append_assoc, ← take_add, ← Int.toNat_add pos.1 positive1.1, amount,
        take_min]

theorem produce_fails (fits : ¬ Fits rb b.length) : cringbufProduce cautious rb b b.length = none := by
  have free : cringbufEmptySz rb ≠ 0 := fun full => fits (.inl full)
  have bound := h.room_le free
  obtain ⟨l, eq⟩ : ∃ l : Nat, min (b.length : Int) (room rb) = l := ⟨(min (b.length : Int) (room rb)).toNat, by omega⟩
  have meets := (fits_iff h free (natCast_nonneg _)).not.mp fits
  rw [eq, not_not] at meets
  rw [cringbufProduce, produceSome_eq h free b eq, if_pos meets]

end

/-! ## Every run -/

structure Observed where
  rb : Cringbuf
  /-- The bytes that were stored. -/
  accepted : List UInt8
  /-- The bytes that were returned. -/
  returned : List UInt8

inductive Call where
  | produce (b : List UInt8)
  | consume (amnt : Nat)
  deriving DecidableEq, Repr

def perform (cautious : Bool) (o : Observed) : Call → Option Observed
  | .produce b => (cringbufProduce cautious o.rb b b.length).map fun (rb, ret) =>
    ⟨rb, o.accepted ++ b.take ret.toNat, o.returned⟩
  | .consume amnt => (cringbufConsume cautious o.rb amnt).map fun (rb, b) => ⟨rb, o.accepted, o.returned ++ b⟩

def ring (cautious : Bool) (buffer : Int → UInt8) (allocSz : Int) : System Observed Call :=
  ⟨⟨cringbufInit buffer allocSz, [], []⟩, perform cautious⟩

structure Queue (cautious : Bool) (sz : Int) (o : Observed) : Prop where
  sound : Sound cautious o.rb
  sz : o.rb.sz = sz
  order : o.accepted = o.returned ++ contents o.rb

theorem perform_queue {sz : Int} {o o' : Observed} {call : Call} (h : Queue cautious sz o)
    (run : perform cautious o call = some o') : Queue cautious sz o' := by
  cases call with
  | produce b =>
    obtain ⟨⟨rb, ret⟩, produced, rfl⟩ := map_eq_some_iff.mp run
    by_cases fits : Fits o.rb b.length
    · obtain ⟨rb', completed, sound, same, appended⟩ := produce_spec h.sound fits
      rw [completed] at produced
      cases produced
      refine ⟨sound, same.trans h.sz, ?_⟩
      dsimp only
      rw [appended, h.order, take_min, append_assoc]
    · rw [produce_fails h.sound fits] at produced
      contradiction
  | consume amnt =>
    obtain ⟨⟨rb, b⟩, consumed, rfl⟩ := map_eq_some_iff.mp run
    obtain ⟨rb', completed, sound, same, left⟩ := consume_spec h.sound amnt
    rw [completed] at consumed
    cases consumed
    refine ⟨sound, same.trans h.sz, ?_⟩
    rw [left, h.order, append_assoc, take_append_drop]

/-- What is stored in a buffer and returned from it, in every run: what was returned and what is queued are
together what was accepted, in order. -/
theorem bounded_queue {buffer : Int → UInt8} {allocSz : Int} {o : Observed} (size : headerSize < allocSz)
    (zeros : cautious = true → ∀ i, 0 ≤ i → i < allocSz - headerSize → buffer i = 0)
    (reached : Reachable (ring cautious buffer allocSz) anyStep o) : o.accepted = o.returned ++ contents o.rb ∧
      (cringbufSz o.rb = (contents o.rb).length ∧ 0 ≤ cringbufEmptySz o.rb ∧
        cringbufSz o.rb + cringbufEmptySz o.rb = allocSz - headerSize - 1) ∧
      (∀ amnt : Nat, ∃ rb, cringbufConsume cautious o.rb amnt = some (rb, (contents o.rb).take amnt) ∧
        contents rb = (contents o.rb).drop amnt) ∧ ∀ b : List UInt8,
        (∃ rb, cringbufProduce cautious o.rb b b.length = some (rb, min (b.length : Int) (cringbufEmptySz o.rb)) ∧
          contents rb = contents o.rb ++ b.take (cringbufEmptySz o.rb).toNat) ↔ Fits o.rb b.length := by
  have start : Queue cautious (allocSz - headerSize) (ring cautious buffer allocSz).init := by
    have inside : 0 ≤ (0 : Int) ∧ 0 < allocSz - headerSize := by omega
    exact ⟨⟨inside, inside, fun on i low high _ => zeros on i low high⟩, rfl, rfl⟩
  obtain ⟨sound, sz, order⟩ := reached.invariant (Queue cautious (allocSz - headerSize)) start
    fun o call o' h _ next => perform_queue h next
  have bound := sound.sz_lt
  refine ⟨order, ⟨sound.size.symm, ?_, ?_⟩, ?_, ?_⟩
  · unfold cringbufEmptySz
    omega
  · unfold cringbufEmptySz
    omega
  · intro amnt
    obtain ⟨rb, completed, -, -, left⟩ := consume_spec sound amnt
    exact ⟨rb, completed, left⟩
  · intro b
    constructor
    · rintro ⟨rb, completed, -⟩
      by_contra fits
      rw [produce_fails sound fits] at completed
      contradiction
    · intro fits
      obtain ⟨rb, completed, -, -, appended⟩ := produce_spec sound fits
      exact ⟨rb, completed, appended⟩

/-- Five bytes into a buffer for seven, two out, and five more, of which four fit. -/
def wrapping : List Call := [.produce [1, 2, 3, 4, 5], .consume 2, .produce [6, 7, 8, 9, 10]]

theorem wrapping_queue : ∃ o, Run (ring true (fun _ => 0) 16) anyStep wrapping o ∧
    o.accepted = o.returned ++ contents o.rb ∧ contents o.rb = [3, 4, 5, 6, 7, 8, 9] := by
  refine exec_shows (fun o => contents o.rb = [3, 4, 5, 6, 7, 8, 9]) (by decide +kernel) fun o run ends => ?_
  obtain ⟨order, -⟩ := bounded_queue (by decide) (fun _ _ _ _ => rfl) ⟨_, run⟩
  exact ⟨order, ends⟩

/-- As many bytes as the memory has, or none, into a new buffer. -/
theorem produce_asserts : cringbufProduce false (cringbufInit (fun _ => 0) 16) [1, 2, 3, 4, 5, 6, 7, 8] 8 = none ∧
      cringbufProduce false (cringbufInit (fun _ => 0) 16) [] 0 = none := by
  constructor
  · decide +kernel
  · decide +kernel

end SuperGlue.Guarantees.RingBuffer
