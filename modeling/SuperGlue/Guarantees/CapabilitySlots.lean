import SuperGlue.Lib.Transition
import SuperGlue.Guarantees.TrieWalks
import SuperGlue.Source.Ert.CapabilityTable

/-!
# Slots of the capability table

Capabilities that were added and not deleted since do not overlap, those in one cache line have one size, and a
lookup finds the one that covers the id. All of this is in the header of the line: which slots are in use and
which size they have.
-/
namespace SuperGlue.Guarantees.CapabilitySlots
open Nat Option Lib.RadixTrie Lib.Transition Source.Ert.Trie Source.Ert.CapabilityTable TrieWalks
open BitVec (twoPow)

variable {s s' : Captbl} {id cap : Nat} {h : CapHeader}

/-! ## Headers -/

/-- A line without capabilities is free for every size, and capabilities of 32 bytes start at even slots. -/
def LineOk (h : CapHeader) : Prop :=
  h.flags = 0 ∧ (h.amap = 0 ∧ h.size = .b64 ∨ h.amap ≠ 0 ∧ h.size = .b16 ∨
    h.amap ≠ 0 ∧ h.amap &&& 0b1010 = 0 ∧ h.size = .b32)

variable {k : Nat}

variable (ok : LineOk h)
include ok

theorem LineOk.start (used : h.amap.getLsbD k) : mask h.size k = k ∧ k + 2 ^ h.size.val ≤ 4 := by
  have inside : k < 4 := BitVec.lt_of_getLsbD used
  obtain ⟨-, ⟨empty, -⟩ | ⟨-, size⟩ | ⟨-, even, size⟩⟩ := ok
  · rw [empty] at used
    simp at used
  · rw [size, mask, CapSz.val]
    omega
  · have bits : ∀ amap : BitVec 4, ∀ k : Fin 4, amap &&& 0b1010 = 0 → amap.getLsbD k →
        mask .b32 k = k ∧ k.val + 2 ≤ 4 := by decide
    rw [size]
    exact bits h.amap ⟨k, inside⟩ even used

/-- Two capabilities of one line do not overlap. -/
theorem LineOk.apart {j : Nat} (usedj : h.amap.getLsbD j) (usedk : h.amap.getLsbD k)
    (before : j < k) : j + 2 ^ h.size.val ≤ k := by
  have startj := (ok.start usedj).1
  have startk := (ok.start usedk).1
  rw [mask] at startj startk
  generalize 2 ^ h.size.val = w at startj startk ⊢
  have less : j / w < k / w := by
    by_contra notless
    have le := Nat.mul_le_mul_right w (Nat.le_of_not_lt notless)
    omega
  have step := mul_le_mul_right w less
  rw [succ_mul] at step
  omega

variable {type : Cap} {off : Nat} {sz : CapSz} {amap : BitVec 4}

theorem LineOk.add (inside : off < 4) (sized : sz = .b16 ∨ sz = .b32)
    (valid : headerValidate { h with amap := h.amap ||| twoPow 4 off, size := sz } sz = false) (type : Cap) :
    LineOk ⟨h.amap ||| twoPow 4 off, sz, h.flags, type⟩ := by
  have used : ∀ amap : BitVec 4, ∀ off : Fin 4, amap ||| twoPow 4 off ≠ 0 := by decide
  have even : ∀ amap : BitVec 4, amap &&& ~~~0b0101#4 = 0 → amap &&& 0b1010 = 0 := by decide
  refine ⟨ok.1, .inr ?_⟩
  rcases sized with rfl | rfl
  · exact .inl ⟨used h.amap ⟨off, inside⟩, rfl⟩
  · refine .inr ⟨used h.amap ⟨off, inside⟩, even _ ?_, rfl⟩
    simpa [headerValidate] using valid

theorem LineOk.del (used : h.amap.getLsbD off) : LineOk { h with
      amap := h.amap &&& ~~~twoPow 4 off
      size := if h.amap &&& ~~~twoPow 4 off = 0 then .b64 else h.size } := by
  refine ⟨ok.1, ?_⟩
  have even : ∀ amap : BitVec 4, ∀ off : Fin 4, amap &&& 0b1010 = 0 → amap &&& ~~~twoPow 4 off &&& 0b1010 = 0 := by
    decide
  have inside : off < 4 := BitVec.lt_of_getLsbD used
  split
  next empty => exact .inl ⟨empty, rfl⟩
  rename_i rest
  obtain ⟨-, ⟨empty, -⟩ | ⟨-, size⟩ | ⟨-, bits, size⟩⟩ := ok
  · rw [empty] at used
    simp at used
  · exact .inr (.inl ⟨rest, size⟩)
  · exact .inr (.inr ⟨rest, even h.amap ⟨off, inside⟩ bits, size⟩)

omit ok

theorem amap_add (inside : off < 4) :
    (amap ||| twoPow 4 off).getLsbD k = (amap.getLsbD k || decide (k = off)) := by
  simp [inside, eq_comm]

theorem amap_del : (amap &&& ~~~twoPow 4 off).getLsbD k = (amap.getLsbD k && !decide (k = off)) := by
  by_cases inside : k < 4
  · by_cases here : k = off
    · simp [inside]
    · simp [inside, here]
  · have outside : amap.getLsbD k = false := BitVec.getLsbD_of_ge _ _ (by omega)
    simp [outside]

/-! ## The table by ids -/

def root (s : Captbl) : Nat := captblConsts.getfn s.t

/-- What is in the slot of an id. -/
def entry (s : Captbl) (id : Nat) : Option Entry :=
  lookup (link captblConsts) s.mem (root s) (high captblConsts id) (low captblConsts id)

/-- The leaf that an id is in. -/
def leaf (s : Captbl) (id : Nat) : Option Nat :=
  follow (link captblConsts) s.mem (root s) (high captblConsts id)

structure Shaped (s : Captbl) : Prop where
  linked : link captblConsts s.t = some (root s)
  tree : Tree (link captblConsts) s.mem (root s) (2 ^ 9) 2
  caps : ∀ id < captblMaxid, ∀ e, entry s id = some e → ∃ h, e = .cap h
  lines : ∀ id < captblMaxid, id % 4 = 0 → ∀ h, entry s id = some (.cap h) → LineOk h

theorem high_line (id : Nat) (k : Nat) (inside : k < 4) :
    high captblConsts (id / 4 * 4 + k) = high captblConsts id := by
  have same : (id / 4 * 4 + k) / 2 ^ 7 = id / 2 ^ 7 := by omega
  simp only [high, captblConsts, same]

theorem low_line (id : Nat) (k : Nat) (inside : k < 4) :
    low captblConsts (id / 4 * 4 + k) = line (low captblConsts id) + k := by
  change (id / 4 * 4 + k) % 2 ^ 7 = id % 2 ^ 7 / 4 * 4 + k
  omega

theorem slot_eq (linked : link captblConsts s.t = some (root s)) (id : Nat) :
    captblSlot s id = (leaf s id).map fun p => (p, low captblConsts id) := by
  rw [captblSlot, ertLookup_eq (by decide) (le_refl _) linked, slotOf, leaf]
  cases follow (link captblConsts) s.mem (root s) (high captblConsts id) with
  | none | some p => rfl

/-- The capability that covers a slot of the line, as an offset into it. -/
def covering (h : CapHeader) (k : Nat) : Option Nat :=
  if h.amap.getLsbD (mask h.size k) then some (mask h.size k) else none

variable {size : CapSz}

theorem mask_line (sized : size ≠ .err) (i : Nat) : mask size i = line i + mask size (i - line i) := by
  cases size with
  | err => contradiction
  | b16 | b32 | b64 =>
    simp only [mask, line, CapSz.val]
    omega

theorem LineOk.sized (ok : LineOk h) : h.size ≠ .err := by
  obtain ⟨-, ⟨-, size⟩ | ⟨-, size⟩ | ⟨-, -, size⟩⟩ := ok <;> simp [size]

theorem low_offset (id : Nat) : low captblConsts id - line (low captblConsts id) = id % 4 := by
  change id % 2 ^ 7 - id % 2 ^ 7 / 4 * 4 = id % 4
  omega

/-- The ids of a line have the leaf in common. -/
theorem leaf_line (s : Captbl) (id : Nat) {k : Nat} (inside : k < 4) : leaf s (id / 4 * 4 + k) = leaf s id := by
  rw [leaf, leaf, high_line id k inside]

theorem entry_line (s : Captbl) (id : Nat) :
    entry s (id / 4 * 4) = (leaf s id).map fun p => s.mem p (line (low captblConsts id)) := by
  have digits := high_line id 0 (by decide)
  have index := low_line id 0 (by decide)
  rw [add_zero] at digits index
  rw [entry, lookup, digits, index, add_zero, leaf]

variable {p : Nat}

section

variable (shaped : Shaped s) (bound : id < captblMaxid)
include shaped bound

/-- The header of the line that an id is in. -/
theorem Shaped.header (reached : leaf s id = some p) :
    ∃ h, Source.Ert.CapabilityTable.header s.mem p (line (low captblConsts id)) = h ∧
      entry s (id / 4 * 4) = some (.cap h) ∧ LineOk h := by
  have found : entry s (id / 4 * 4) = some (s.mem p (line (low captblConsts id))) := by
    rw [entry_line, reached, map_some]
  obtain ⟨h, eq⟩ := shaped.caps _ (by omega) _ found
  rw [eq] at found
  refine ⟨h, ?_, found, shaped.lines _ (by omega) (by omega) h found⟩
  rw [Source.Ert.CapabilityTable.header, eq]

theorem lkup_eq :
    captblLkup s id =
      match entry s (id / 4 * 4) with
      | some (.cap h) => (covering h (id % 4)).bind fun j => captblSlot s (id / 4 * 4 + j)
      | _ => none := by
  rw [captblLkup, if_neg (not_le.mpr bound), ertLookup_eq (by decide) (le_succ _) shaped.linked, slotOf, ← leaf]
  cases reached : leaf s id with
  | none =>
    rw [entry_line, reached]
    rfl
  | some p =>
    obtain ⟨h, read, found, ok⟩ := shaped.header bound reached
    have small : mask h.size (id % 4) < 4 := by
      have le : mask h.size (id % 4) ≤ id % 4 := div_mul_le_self ..
      omega
    have offset := mask_line ok.sized (low captblConsts id)
    rw [low_offset] at offset
    rw [found]
    simp only [map_some, captblGetleaf, read, covering]
    rw [offset, Nat.add_sub_cancel_left]
    split
    · rw [bind_some, slot_eq shaped.linked, leaf_line s id small, reached, low_line id _ small]
      rfl
    · rfl

/-- The size of the capability that starts at an id, as the header has it. -/
def liveIn (s : Captbl) (id : Nat) : Option CapSz :=
  match entry s (id / 4 * 4) with
  | some (.cap h) => if h.amap.getLsbD (id % 4) then some h.size else none
  | _ => none

theorem liveIn_some (live : liveIn s id = some sz) :
    ∃ h, entry s (id / 4 * 4) = some (.cap h) ∧ LineOk h ∧ h.amap.getLsbD (id % 4) ∧ h.size = sz := by
  rw [liveIn] at live
  split at live
  next h found =>
    split at live
    next used =>
      exact ⟨h, found, shaped.lines _ (by omega) (by omega) h found, used, some.inj live⟩
    · contradiction
  · contradiction

end

/-- The ids that a capability covers. -/
def Covers (id : Nat) (sz : CapSz) (id' : Nat) : Prop := id ≤ id' ∧ id' < id + 2 ^ sz.val

variable {id' : Nat} {l : CapHeader}

/-- Capabilities stay in their line. -/
theorem liveIn_line (shaped : Shaped s) (bound : id < captblMaxid) (live : liveIn s id = some sz)
    (covers : Covers id sz id') : id' / 4 = id / 4 := by
  obtain ⟨h, -, ok, used, rfl⟩ := liveIn_some shaped bound live
  have fits := (ok.start used).2
  obtain ⟨low, high⟩ := covers
  omega

section

variable (shaped : Shaped s) (bound : id < captblMaxid) (bound' : id' < captblMaxid) (live : liveIn s id = some sz)
  {sz' : CapSz}
include shaped bound bound' live

theorem liveIn_same (live' : liveIn s id' = some sz') (together : id / 4 = id' / 4) : sz = sz' := by
  obtain ⟨h, found, -, -, rfl⟩ := liveIn_some shaped bound live
  obtain ⟨h', found', -, -, rfl⟩ := liveIn_some shaped bound' live'
  rw [together, found'] at found
  cases found
  rfl

theorem liveIn_apart (live' : liveIn s id' = some sz') (before : id < id') : id + 2 ^ sz.val ≤ id' := by
  by_cases together : id / 4 = id' / 4
  · obtain ⟨h, found, ok, used, rfl⟩ := liveIn_some shaped bound live
    obtain ⟨h', found', -, used', -⟩ := liveIn_some shaped bound' live'
    rw [together, found'] at found
    cases found
    have apart := ok.apart used used' (by omega)
    omega
  · by_contra past
    exact together (liveIn_line shaped bound live ⟨before.le, not_le.mp past⟩).symm

end

theorem mask_eq {j : Nat} (start : mask size j = j) (low : j ≤ k) (high : k < j + 2 ^ size.val) : mask size k = j := by
  rw [mask] at start ⊢
  have quotient : k / 2 ^ size.val = j / 2 ^ size.val := by
    apply Nat.div_eq_of_lt_le
    · omega
    · rw [Nat.succ_mul]
      omega
  rw [quotient, start]

/-- A lookup finds the capability that covers the id. -/
theorem lkup_live (shaped : Shaped s) (bound : id < captblMaxid) :
    (∃ id0 sz, liveIn s id0 = some sz ∧ id0 < captblMaxid ∧ Covers id0 sz id ∧
      captblLkup s id = captblSlot s id0 ∧ (captblSlot s id0).isSome) ∨
    captblLkup s id = none ∧ ∀ id0 sz, id0 < captblMaxid → liveIn s id0 = some sz → ¬ Covers id0 sz id := by
  rw [lkup_eq shaped bound]
  cases found : entry s (id / 4 * 4) with
  | none =>
    refine .inr ⟨rfl, fun id0 sz bound0 live covers => ?_⟩
    obtain ⟨h, found0, -⟩ := liveIn_some shaped bound0 live
    rw [← liveIn_line shaped bound0 live covers, found] at found0
    contradiction
  | some e =>
    obtain ⟨h, rfl⟩ := shaped.caps _ (by omega) e found
    have ok := shaped.lines _ (by omega) (by omega) h found
    have le : mask h.size (id % 4) ≤ id % 4 := div_mul_le_self ..
    dsimp only
    rw [covering]
    split
    next used =>
      have line0 : (id / 4 * 4 + mask h.size (id % 4)) / 4 * 4 = id / 4 * 4 := by omega
      have offset0 : (id / 4 * 4 + mask h.size (id % 4)) % 4 = mask h.size (id % 4) := by omega
      have up : id % 4 < mask h.size (id % 4) + 2 ^ h.size.val := Nat.lt_div_mul_add (Nat.two_pow_pos _)
      refine .inl ⟨id / 4 * 4 + mask h.size (id % 4), h.size, ?_, by omega, ⟨by omega, by omega⟩, rfl, ?_⟩
      · rw [liveIn, line0, found, offset0]
        exact if_pos used
      · rw [entry_line] at found
        obtain ⟨p, reached, -⟩ := map_eq_some_iff.mp found
        rw [slot_eq shaped.linked, leaf_line s id (by omega), reached]
        rfl
    next unused =>
      refine .inr ⟨rfl, fun id0 sz bound0 live covers => ?_⟩
      have together := liveIn_line shaped bound0 live covers
      obtain ⟨h0, found0, ok0, used, rfl⟩ := liveIn_some shaped bound0 live
      rw [← together, found] at found0
      cases found0
      have start : mask h.size (id % 4) = id0 % 4 := by
        obtain ⟨first, last⟩ := covers
        exact mask_eq (ok.start used).1 (by omega) (by omega)
      rw [start] at unused
      exact unused used

/-! ## Calls -/

theorem lkup_start (shaped : Shaped s) (bound : id < captblMaxid) (live : liveIn s id = some sz) :
    captblLkup s id = captblSlot s id := by
  rcases lkup_live shaped bound with ⟨id0, sz0, live0, bound0, covers, eq, -⟩ | ⟨-, free⟩
  · obtain ⟨low, high⟩ := covers
    rcases eq_or_lt_of_le low with rfl | before
    · exact eq
    · have apart := liveIn_apart shaped bound0 bound live0 live before
      omega
  · exact absurd ⟨Nat.le_refl id, Nat.lt_add_of_pos_right (Nat.two_pow_pos _)⟩ (free id sz bound live)

/-- `s'` has other entries than `s`, and no other nodes. -/
structure Rewritten (s s' : Captbl) (entries : Nat → Option Entry) : Prop where
  shaped : Shaped s'
  ways : ∀ id, leaf s' id = leaf s id
  entries : ∀ id < captblMaxid, entry s' id = entries id

theorem Rewritten.slot {entries : Nat → Option Entry} (h : Rewritten s s' entries) (shaped : Shaped s) (id : Nat) :
    captblSlot s' id = captblSlot s id := by
  rw [slot_eq h.shaped.linked, slot_eq shaped.linked, h.ways]

/-- A slot gets another header; if it is the first one of its line, then a good one. -/
theorem write_rewritten (shaped : Shaped s) (bound : id < captblMaxid) {h : CapHeader} (reached : leaf s id = some p)
    (ok : id % 4 = 0 → LineOk h) :
    Rewritten s { s with mem := write s.mem p (low captblConsts id) (.cap h) } fun id' =>
      if id' = id then some (.cap h) else entry s id' := by
  have path := high_path captblConsts (by decide) id
  have full := length_high captblConsts (by decide) id
  have ways : ∀ ds, Path (2 ^ 9) 2 ds → follow (link captblConsts) (write s.mem p (low captblConsts id) (.cap h))
      (root s) ds = follow (link captblConsts) s.mem (root s) ds :=
    fun ds path' => follow_write_leaf shaped.tree path reached full path'
  have entries : ∀ id' < captblMaxid, entry { s with mem := write s.mem p (low captblConsts id) (.cap h) } id' =
      if id' = id then some (.cap h) else entry s id' := by
    intro id' bound'
    change lookup _ (write s.mem p (low captblConsts id) (.cap h)) (root s) _ _ = _
    rw [lookup_write shaped.tree path reached full (high_path captblConsts (by decide) id')]
    by_cases same : id' = id
    · rw [same, if_pos ⟨rfl, rfl⟩, if_pos rfl]
    · rw [if_neg same, if_neg]
      · rfl
      · rintro ⟨digits, rest⟩
        exact same (high_low_inj bound' bound digits rest)
  refine ⟨⟨shaped.linked, shaped.tree.congr ways, ?_, ?_⟩, fun id' => ways _ (high_path captblConsts (by decide) id'),
    entries⟩
  · intro id' bound' e found
    rw [entries id' bound'] at found
    split at found
    · exact ⟨h, (some.inj found).symm⟩
    · exact shaped.caps id' bound' e found
  · intro id' bound' first h' found
    rw [entries id' bound'] at found
    split at found
    next same =>
      cases found
      exact ok (same ▸ first)
    · exact shaped.lines id' bound' first h' found

/-- The header of a line is written. -/
theorem line_rewritten (shaped : Shaped s) (bound : id < captblMaxid) (reached : leaf s id = some p) (ok : LineOk l) :
    Rewritten s { s with mem := write s.mem p (line (low captblConsts id)) (.cap l) } fun id' =>
      if id' = id / 4 * 4 then some (.cap l) else entry s id' := by
  have index := low_line id 0 (by decide)
  rw [add_zero, add_zero] at index
  rw [← index]
  have way := leaf_line s id (show 0 < 4 by decide)
  exact write_rewritten shaped (by omega) (way.trans reached) fun _ => ok

/-- The header of a line is exchanged for one that differs from it at one slot. -/
theorem live_edited {v : Option CapSz} (found : entry s (id / 4 * 4) = some (.cap h))
    (here : (if l.amap.getLsbD (id % 4) then some l.size else none) = v)
    (bits : ∀ k, k ≠ id % 4 → l.amap.getLsbD k = h.amap.getLsbD k)
    (sizes : ∀ k, k ≠ id % 4 → h.amap.getLsbD k → l.size = h.size)
    (lines : ∀ id' < captblMaxid, id' % 4 = 0 → entry s' id' = if id' = id / 4 * 4 then some (.cap l) else entry s id')
    (bound' : id' < captblMaxid) : liveIn s' id' = if id' = id then v else liveIn s id' := by
  rw [liveIn, lines (id' / 4 * 4) (by omega) (by omega)]
  by_cases together : id' / 4 = id / 4
  · rw [if_pos (by omega)]
    by_cases same : id' = id
    · rw [if_pos same, same]
      exact here
    have apart : id' % 4 ≠ id % 4 := by omega
    rw [liveIn, together, found]
    dsimp only
    rw [bits _ apart]
    split
    next used => rw [sizes _ apart used]
    · rfl
  · have ne : ¬ id' = id := fun same => together (congrArg (· / 4) same)
    rw [if_neg (by omega), if_neg ne]
    rfl

theorem amap_ne_zero (used : amap.getLsbD k) : amap ≠ 0 := by
  rintro rfl
  simp at used

/-- The capability of this type is at the id. -/
def Typed (s : Captbl) (id : Nat) (type : Cap) : Prop := ∃ h, entry s id = some (.cap h) ∧ h.type = type

/-- What a successful `captbl_add` or `captbl_del` changes. -/
structure Edited (s s' : Captbl) (id : Nat) (v : Option Cap) : Prop where
  shaped : Shaped s'
  slots : ∀ id', captblSlot s' id' = captblSlot s id'
  live : ∀ id' < captblMaxid, liveIn s' id' = if id' = id then v.map cap2sz else liveIn s id'
  types : ∀ id' < captblMaxid, ∀ type', Typed s id' type' → id' ≠ id → Typed s' id' type'
  typed : ∀ type, v = some type → Typed s' id type

variable (shaped : Shaped s)
include shaped

/-- The two stores of `captbl_add`. -/
theorem add_stores (bound : id < captblMaxid) (reached : leaf s id = some p)
    (found : entry s (id / 4 * 4) = some (.cap h)) (sized : cap2sz type ≠ .err)
    (alike : ¬ (h.amap ≠ 0 ∧ h.size ≠ cap2sz type))
    (valid : headerValidate { h with amap := h.amap ||| twoPow 4 (id % 4), size := cap2sz type }
      (cap2sz type) = false) :
    let l : CapHeader := { h with amap := h.amap ||| twoPow 4 (id % 4), size := cap2sz type }
    let i := low captblConsts id
    let l := if i = line i then { l with type } else l
    let m := write s.mem p (line i) (.cap l)
    let m := if i ≠ line i then write m p i (.cap { header m p i with type }) else m
    Edited s { s with mem := m } id (some type) := by
  intro l0 i l m1 m
  have start : i = line i ↔ id % 4 = 0 := by
    have offset := low_offset id
    change i - line i = id % 4 at offset
    have le : line i ≤ i := div_mul_le_self i 4
    omega
  have ok := shaped.lines _ (by omega) (by omega) h found
  have good : ∀ type', LineOk ⟨h.amap ||| twoPow 4 (id % 4), cap2sz type, h.flags, type'⟩ := fun type' =>
    ok.add (mod_lt _ (by decide)) (by cases type <;> simp_all [cap2sz]) valid type'
  have live : ∀ {t : Captbl} (type' : Cap), (∀ id' < captblMaxid, id' % 4 = 0 → entry t id' = if id' = id / 4 * 4 then
      some (.cap ⟨h.amap ||| twoPow 4 (id % 4), cap2sz type, h.flags, type'⟩) else entry s id') →
      ∀ id' < captblMaxid, liveIn t id' = if id' = id then some (cap2sz type) else liveIn s id' := by
    intro t type' lines id' bound'
    refine live_edited found ?_ (fun k other => ?_) (fun k _ used => ?_) lines bound'
    · simp [amap_add (mod_lt id (show 0 < 4 by decide))]
    · simp [amap_add (mod_lt id (show 0 < 4 by decide)), other]
    · by_contra ne
      exact alike ⟨amap_ne_zero used, Ne.symm ne⟩
  by_cases first : id % 4 = 0
  · have l_eq : l = { l0 with type } := if_pos (start.mpr first)
    have m_eq : m = m1 := if_neg (not_not.mpr (start.mpr first))
    have stored := line_rewritten shaped bound reached (good type)
    have here : id / 4 * 4 = id := by omega
    rw [m_eq]
    simp only [m1, l_eq]
    refine ⟨stored.shaped, stored.slot shaped, live type fun id' bound' _ => stored.entries id' bound', ?_, ?_⟩
    · rintro id' bound' type' ⟨h', found', rfl⟩ ne
      refine ⟨h', ?_, rfl⟩
      rw [stored.entries id' bound', if_neg (by omega), found']
    · rintro _ ⟨⟩
      refine ⟨{ l0 with type }, ?_, rfl⟩
      rw [stored.entries id bound, if_pos here.symm]
  · have l_eq : l = l0 := if_neg fun same => first (start.mp same)
    have m_eq : m = write m1 p i (.cap { header m1 p i with type }) := if_pos fun same => first (start.mp same)
    have stored : Rewritten s { s with mem := m1 } fun id' =>
        if id' = id / 4 * 4 then some (.cap l0) else entry s id' := by
      simp only [m1, l_eq]
      exact line_rewritten shaped bound reached (good h.type)
    have typed := write_rewritten (h := { header m1 p i with type }) stored.shaped bound
      ((stored.ways id).trans reached) fun same => absurd same first
    rw [m_eq]
    refine ⟨typed.shaped, fun id' => (typed.slot stored.shaped id').trans (stored.slot shaped id'), ?_, ?_, ?_⟩
    · refine live h.type fun id' bound' line' => ?_
      rw [typed.entries id' bound', if_neg (by rintro rfl; exact first line'), stored.entries id' bound']
    · rintro id' bound' type' ⟨h', found', rfl⟩ ne
      rw [Typed, typed.entries id' bound', if_neg ne, stored.entries id' bound']
      split
      next same =>
        rw [same, found] at found'
        cases found'
        exact ⟨⟨h.amap ||| twoPow 4 (id % 4), cap2sz type, h.flags, h.type⟩, rfl, rfl⟩
      · exact ⟨h', found', rfl⟩
    · rintro _ ⟨⟩
      refine ⟨{ header m1 p i with type }, ?_, rfl⟩
      rw [typed.entries id bound, if_pos rfl]

theorem captblSlot_some {i : Nat} (slot : captblSlot s id = some (p, i)) :
    leaf s id = some p ∧ i = low captblConsts id := by
  rw [slot_eq shaped.linked] at slot
  obtain ⟨q, reached, eq⟩ := map_eq_some_iff.mp slot
  cases eq
  exact ⟨reached, rfl⟩

/-- `captbl_add` fails and changes nothing, or it adds the capability. Its assertion holds. -/
theorem add_spec (cap : Nat) (type : Cap) :
    (∃ ret, captblAdd s cap type = some (s, none, ret) ∧ ret ≠ 0) ∨
    ∃ s', captblAdd s cap type = some (s', captblSlot s cap, 0) ∧ (captblSlot s cap).isSome ∧
      cap < captblMaxid ∧ Edited s s' cap (some type) := by
  rw [captblAdd]
  by_cases sized : cap2sz type = .err
  · exact .inl ⟨-einval, if_pos sized, by decide⟩
  rw [if_neg sized]
  by_cases beyond : captblMaxid ≤ cap
  · exact .inl ⟨-einval, if_pos beyond, by decide⟩
  rw [if_neg beyond]
  have bound := not_le.mp beyond
  cases slot : captblSlot s cap with
  | none => exact .inl ⟨-eperm, rfl, by decide⟩
  | some place =>
    obtain ⟨p, i⟩ := place
    obtain ⟨reached, rfl⟩ := captblSlot_some shaped slot
    obtain ⟨h, read, found, ok⟩ := shaped.header bound reached
    dsimp only
    rw [read, low_offset]
    split
    · exact .inl ⟨-eperm, rfl, by decide⟩
    split
    · exact .inl ⟨-eexist, rfl, by decide⟩
    split
    · exact .inl ⟨-eexist, rfl, by decide⟩
    rename_i alike
    split
    · exact .inl ⟨-einval, rfl, by decide⟩
    rename_i valid
    have added := add_stores shaped bound reached found sized (fun both => alike (.inl both))
      (Bool.not_eq_true _ ▸ valid)
    have live := added.live cap bound
    rw [if_pos rfl] at live
    have asserted := lkup_start added.shaped bound live
    rw [added.slots, slot] at asserted
    exact .inr ⟨_, if_pos asserted, rfl, bound, added⟩

/-- `captbl_del` fails and changes nothing, or it deletes the capability. -/
theorem del_spec (cap : Nat) : (∃ ret, captblDel s cap = (s, ret) ∧ ret ≠ 0) ∨
    ∃ s', captblDel s cap = (s', 0) ∧ cap < captblMaxid ∧ Edited s s' cap none := by
  rw [captblDel]
  by_cases beyond : captblMaxid ≤ cap
  · exact .inl ⟨-einval, if_pos beyond, by decide⟩
  rw [if_neg beyond]
  have bound := not_le.mp beyond
  cases slot : captblSlot s cap with
  | none => exact .inl ⟨-eperm, rfl, by decide⟩
  | some place =>
    obtain ⟨p, i⟩ := place
    obtain ⟨reached, rfl⟩ := captblSlot_some shaped slot
    obtain ⟨h, read, found, ok⟩ := shaped.header bound reached
    dsimp only
    rw [read, low_offset]
    split
    · exact .inl ⟨-einval, rfl, by decide⟩
    split
    · exact .inl ⟨-eperm, rfl, by decide⟩
    split
    · exact .inl ⟨-enoent, rfl, by decide⟩
    rename_i unused
    have used : h.amap.getLsbD (cap % 4) := by simpa using unused
    have stored := line_rewritten shaped bound reached (ok.del used)
    refine .inr ⟨_, rfl, bound, stored.shaped, stored.slot shaped, ?_, ?_, by simp⟩
    · intro id' bound'
      have bits : ∀ k, k ≠ cap % 4 → (h.amap &&& ~~~twoPow 4 (cap % 4)).getLsbD k = h.amap.getLsbD k := by
        intro k other
        rw [amap_del, decide_eq_false other, Bool.not_false, Bool.and_true]
      refine live_edited found ?_ bits (fun k other used => if_neg (amap_ne_zero ((bits k other).trans used)))
        (fun id' bound' _ => stored.entries id' bound') bound'
      simp
    · rintro id' bound' type' ⟨h', found', rfl⟩ -
      rw [Typed, stored.entries id' bound']
      split
      next same =>
        rw [same, found] at found'
        cases found'
        exact ⟨_, rfl, rfl⟩
      · exact ⟨h', found', rfl⟩

omit shaped

/-! ## Expansion -/

theorem captbl_lawful : Lawful captblConsts Option.toList := by
  refine ⟨by decide, fun _ => rfl, fun _ _ => rfl, ?_, ?_⟩
  · intro c q c' answer
    cases answer
    rfl
  · intro c c' answer
    cases answer
    rfl

/-- Memory for `captbl_expand`: not NULL and not in the table. -/
def Available (s : Captbl) (memctxt : Option Nat) : Prop :=
  ∀ q ∈ memctxt.toList, q ≠ 0 ∧ q ∉ collect (link captblConsts) s.mem (2 ^ 9) 2 (root s)

instance (s : Captbl) (memctxt : Option Nat) : Decidable (Available s memctxt) :=
  inferInstanceAs (Decidable (∀ q ∈ memctxt.toList, _))

/-- The memory is prepared with `captbl_init`. -/
def prepared (s : Captbl) : Option Nat → Captbl
  | none => s
  | some node => captblInit s node

variable {memctxt : Option Nat}

theorem prepared_other (other : p ∉ memctxt.toList) : (prepared s memctxt).mem p = s.mem p := by
  cases memctxt with
  | none => rfl
  | some => exact Function.update_of_ne (fun eq => other (List.mem_singleton.mpr eq)) ..

theorem prepared_follow {ds : List Nat} (available : Available s memctxt)
    (path : Path (2 ^ 9) 2 ds) : follow (link captblConsts) (prepared s memctxt).mem (root s) ds =
      follow (link captblConsts) s.mem (root s) ds := by
  cases memctxt with
  | none => rfl
  | some node =>
    have unreached := (available node (List.mem_singleton_self node)).2
    refine follow_fresh (q := node) ?_ (fun p other => prepared_other fun same => ?_) path
    · intro ds path reached
      exact unreached (mem_collect.mpr ⟨ds, path, reached⟩)
    · exact other (List.mem_singleton.mp same)

theorem prepared_entry (available : Available s memctxt) (id : Nat) : entry (prepared s memctxt) id = entry s id := by
  have path := high_path captblConsts (by decide) id
  have root_eq : root (prepared s memctxt) = root s := by cases memctxt <;> rfl
  rw [entry, entry, lookup, lookup, root_eq, prepared_follow available path]
  cases reached : follow (link captblConsts) s.mem (root s) (high captblConsts id) with
  | none => rfl
  | some p =>
    have old : p ∉ memctxt.toList := fun new => (available p new).2 (mem_collect.mpr ⟨_, path, reached⟩)
    rw [map_some, map_some, prepared_other old]

/-- Entries that are new are free. -/
structure Grown (s s' : Captbl) : Prop where
  shaped : Shaped s'
  entries : ∀ id < captblMaxid, entry s' id = entry s id ∨ entry s id = none ∧ entry s' id = some (.cap emptyHeader)

/-- The slots of a node that was prepared are free. -/
theorem prepared_cell {node d : Nat} (inside : d < 2 ^ 7) :
    ertInit captblConsts (prepared s (some node)).mem node true node d = .cap emptyHeader := by
  have cell : (prepared s (some node)).mem node d = .cap emptyHeader := by
    exact (congrFun (Function.update_self ..) d).trans (if_pos inside)
  rw [ertInit, Function.update_self]
  exact (if_pos inside).trans cell

theorem prepared_root (s : Captbl) (memctxt : Option Nat) :
    (prepared s memctxt).t = s.t ∧ root (prepared s memctxt) = root s := by
  cases memctxt <;> exact ⟨rfl, rfl⟩

theorem prepared_tree (shaped : Shaped s) (available : Available s memctxt) :
    Tree (link captblConsts) (prepared s memctxt).mem (root s) (2 ^ 9) 2 :=
  shaped.tree.congr fun _ path => prepared_follow available path

theorem prepared_fresh (available : Available s memctxt) :
    Fresh captblConsts (prepared s memctxt).mem (root s) memctxt.toList := by
  refine ⟨?_, fun q mem => ?_, fun q mem ds path reached => ?_⟩
  · cases memctxt <;> simp
  · exact if_neg fun null => (available q mem).1 (beq_iff_eq.mp null)
  · rw [prepared_follow available path] at reached
    exact (available q mem).2 (mem_collect.mpr ⟨ds, path, reached⟩)

variable {m : Memory Nat Entry}

theorem expansion_entry {cap : Nat} (available : Available s memctxt)
    (expansion : Expansion captblConsts (prepared s memctxt).mem m (root s) (high captblConsts cap) memctxt.toList)
    (id : Nat) : entry { prepared s memctxt with mem := m } id = entry s id ∨
      entry s id = none ∧ entry { prepared s memctxt with mem := m } id = some (.cap emptyHeader) := by
  obtain ⟨-, root_eq⟩ := prepared_root s memctxt
  have before : lookup (link captblConsts) (prepared s memctxt).mem (root s) (high captblConsts id)
      (low captblConsts id) = entry s id := by
    rw [← root_eq]
    exact prepared_entry available id
  have after : entry { prepared s memctxt with mem := m } id =
      lookup (link captblConsts) m (root s) (high captblConsts id) (low captblConsts id) := by
    rw [← root_eq]
    rfl
  rw [after, ← before]
  by_cases same : high captblConsts id = high captblConsts cap
  · rw [same]
    rcases expansion.here (low captblConsts id) with eq | ⟨absent, q, member, cell⟩
    · exact .inl eq
    · refine .inr ⟨absent, cell.trans ?_⟩
      obtain rfl := mem_toList.mp member
      exact congrArg some (prepared_cell (mod_lt _ (by decide)))
  · exact .inl (expansion.elsewhere _ _ (high_path _ (by decide) id) (length_high _ (by decide) id) same)

theorem expansion_grown (cap : Nat) (shaped : Shaped s) (available : Available s memctxt)
    (expansion : Expansion captblConsts (prepared s memctxt).mem m (root s) (high captblConsts cap) memctxt.toList) :
    Grown s { prepared s memctxt with mem := m } := by
  obtain ⟨t_eq, root_eq⟩ := prepared_root s memctxt
  have cells := expansion_entry available expansion
  have linked : link captblConsts (prepared s memctxt).t = some (root (prepared s memctxt)) := by
    rw [root_eq, t_eq]
    exact shaped.linked
  have tree : Tree (link captblConsts) m (root (prepared s memctxt)) (2 ^ 9) 2 := by
    rw [root_eq]
    exact expansion.tree
  refine ⟨⟨linked, tree, ?_, ?_⟩, fun id _ => cells id⟩
  · intro id bound e found
    rcases cells id with same | ⟨-, new⟩
    · exact shaped.caps id bound e (same ▸ found)
    · rw [new] at found
      exact ⟨emptyHeader, (some.inj found).symm⟩
  · intro id bound first h found
    rcases cells id with same | ⟨-, new⟩
    · exact shaped.lines id bound first h (same ▸ found)
    · rw [new] at found
      cases found
      exact ⟨rfl, .inl ⟨rfl, rfl⟩⟩

theorem Grown.live (grown : Grown s s') (bound : id < captblMaxid) : liveIn s' id = liveIn s id := by
  rw [liveIn, liveIn]
  rcases grown.entries (id / 4 * 4) (lt_of_le_of_lt (by omega) bound) with same | ⟨absent, new⟩
  · rw [same]
  · rw [absent, new]
    simp [emptyHeader]

theorem Grown.types (grown : Grown s s') (bound : id < captblMaxid) (typed : Typed s id type) : Typed s' id type := by
  obtain ⟨h, found, eq⟩ := typed
  rcases grown.entries id bound with same | ⟨absent, -⟩
  · exact ⟨h, same ▸ found, eq⟩
  · rw [absent] at found
    contradiction

theorem expand_spec {depth cap : Nat} {ret : Int} (shaped : Shaped s) (available : Available s memctxt)
    (run : captblExpand (prepared s memctxt) cap depth memctxt = some (s', ret)) : Grown s s' := by
  rw [captblExpand] at run
  split at run
  · cases run
    exact expansion_grown cap shaped available (.refl (prepared_tree shaped available))
  rename_i allowed
  have depths : depth ≤ 2 := not_lt.mp fun deep => allowed (.inr deep)
  split at run
  next asserted =>
    have tree := prepared_tree shaped available
    have grown : Grown s { prepared s memctxt with mem :=
        (ertExpand captblConsts (prepared s memctxt).mem (prepared s memctxt).t cap depth () memctxt ()).mem } := by
      refine expansion_grown cap shaped available ?_
      rw [(prepared_root s memctxt).1]
      obtain rfl | rfl : depth = 1 ∨ depth = 2 := by omega
      · exact .refl tree
      · obtain ⟨m', place, accum', c', run, expansion, -⟩ :=
          expand_path captbl_lawful () shaped.linked tree (prepared_fresh available) cap
        have rounds : min 2 captblConsts.depth - 1 = captblConsts.depth - 1 := rfl
        simp only [ertExpand, rounds, run]
        cases place <;> exact expansion
    dsimp only at run
    split at run
    · cases run
      exact grown
    split at run
    · cases run
      exact grown
    · cases run
      exact grown
  · contradiction

/-! ## Every run -/

structure Observed where
  t : Captbl
  /-- The capabilities that were added and not deleted since. -/
  live : Nat → Option Cap

inductive Call where
  | expand (cap depth : Nat) (memctxt : Option Nat)
  | add (cap : Nat) (type : Cap)
  | del (cap : Nat)
  deriving DecidableEq, Repr

def perform (o : Observed) : Call → Option Observed
  | .expand cap depth memctxt =>
    if Available o.t memctxt then
      (captblExpand (prepared o.t memctxt) cap depth memctxt).map fun (t, _) => ⟨t, o.live⟩
    else none
  | .add cap type =>
    (captblAdd o.t cap type).map fun (t, p, _) =>
      ⟨t, if p.isSome then Function.update o.live cap (some type) else o.live⟩
  | .del cap =>
    let (t, ret) := captblDel o.t cap
    some ⟨t, if ret = 0 then Function.update o.live cap none else o.live⟩

/-- Calls on a table that was allocated. -/
def table (t : Captbl) : System Observed Call := ⟨⟨t, fun _ => none⟩, perform⟩

/-- The headers say which capabilities are live. -/
structure Tracked (o : Observed) : Prop where
  shaped : Shaped o.t
  bound : ∀ id type, o.live id = some type → id < captblMaxid
  live : ∀ id < captblMaxid, (o.live id).map cap2sz = liveIn o.t id
  typed : ∀ id type, o.live id = some type → Typed o.t id type

variable {o : Observed}

theorem Tracked.update {v : Option Cap} (h : Tracked o) (below : cap < captblMaxid) (edited : Edited o.t s cap v) :
    Tracked ⟨s, Function.update o.live cap v⟩ := by
  refine ⟨edited.shaped, fun id type on => ?_, fun id bound => ?_, fun id type on => ?_⟩
  · dsimp only at on
    rw [Function.update_apply] at on
    split at on
    next same => exact same ▸ below
    · exact h.bound id type on
  · dsimp only
    rw [edited.live id bound, Function.update_apply]
    split
    · rfl
    · exact h.live id bound
  · dsimp only at on
    rw [Function.update_apply] at on
    split at on
    next same => exact same ▸ edited.typed type on
    next other => exact edited.types id (h.bound id type on) type (h.typed id type on) other

theorem perform_tracked {o' : Observed} {call : Call} (h : Tracked o) (run : perform o call = some o') :
    Tracked o' := by
  cases call with
  | expand =>
    rw [perform] at run
    split at run
    next available =>
      obtain ⟨⟨t, ret⟩, expanded, rfl⟩ := map_eq_some_iff.mp run
      have grown := expand_spec h.shaped available expanded
      refine ⟨grown.shaped, h.bound, fun id bound => ?_, fun id type live => ?_⟩
      · exact (h.live id bound).trans (grown.live bound).symm
      · exact grown.types (h.bound id type live) (h.typed id type live)
    · contradiction
  | add cap type =>
    rw [perform] at run
    rcases add_spec h.shaped cap type with ⟨ret, failed, -⟩ | ⟨t, done, slot, below, added⟩
    · rw [failed] at run
      cases run
      exact h
    · rw [done] at run
      cases run
      dsimp only
      rw [if_pos slot]
      exact h.update below added
  | del cap =>
    rw [perform] at run
    rcases del_spec h.shaped cap with ⟨ret, failed, nonzero⟩ | ⟨t, done, below, deleted⟩
    · rw [failed] at run
      cases run
      rw [if_neg nonzero]
      exact h
    · rw [done] at run
      cases run
      exact h.update below deleted

/-- In a new table nothing is reached but the root. -/
theorem alloc_tracked {v : Nat} {t : Captbl} (nonnull : v ≠ 0)
    (made : captblAlloc m (some v) = some (some t)) : Tracked ⟨t, fun _ => none⟩ := by
  obtain rfl : t = ⟨ertInit captblConsts m v false, .ptr v⟩ := by
    cases made
    rfl
  have linked : link captblConsts (.ptr v) = some v := if_neg fun null => nonnull (beq_iff_eq.mp null)
  have alone : ∀ ds p, Path (2 ^ 9) 2 ds →
      follow (link captblConsts) (ertInit captblConsts m v false) v ds = some p → ds = [] := by
    intro ds p path reached
    cases ds with
    | nil => rfl
    | cons d =>
      have blank : link captblConsts (ertInit captblConsts m v false v d) = none :=
        ertInit_blank captbl_lawful (path.digit d List.mem_cons_self)
      rw [follow, blank] at reached
      contradiction
  have absent : ∀ id, entry ⟨ertInit captblConsts m v false, .ptr v⟩ id = none := by
    intro id
    have path := high_path captblConsts (by decide) id
    have full := length_high captblConsts (by decide) id
    cases reached : follow (link captblConsts) (ertInit captblConsts m v false) v (high captblConsts id) with
    | none =>
      exact congrArg (Option.map _) reached
    | some p =>
      rw [alone _ p path reached] at full
      exact absurd full (by decide)
  refine ⟨⟨linked, ?_, ?_, ?_⟩, by simp, ?_, by simp⟩
  · intro ds ds' p path path' reached reached'
    rw [alone ds p path reached, alone ds' p path' reached']
  · intro id _ e found
    rw [absent id] at found
    contradiction
  · intro id _ _ h found
    rw [absent id] at found
    contradiction
  · intro id _
    rw [liveIn, absent]
    rfl

theorem Tracked.sized (h : Tracked o) (on : o.live id = some type) : liveIn o.t id = some (cap2sz type) := by
  rw [← h.live id (h.bound id type on), on]
  rfl

theorem Tracked.lookup (h : Tracked o) (id : Nat) :
    (∃ id0 type p i, o.live id0 = some type ∧ Covers id0 (cap2sz type) id ∧
        captblLkup o.t id = some (p, i) ∧ captblSlot o.t id0 = some (p, i) ∧ (header o.t.mem p i).type = type) ∨
      captblLkup o.t id = none ∧ ∀ id0 type, o.live id0 = some type → ¬ Covers id0 (cap2sz type) id := by
  by_cases bound : id < captblMaxid
  · rcases lkup_live h.shaped bound with ⟨id0, sz, live, bound0, covers, eq, slot⟩ | ⟨none, free⟩
    · rw [← h.live id0 bound0] at live
      obtain ⟨type, on, rfl⟩ := map_eq_some_iff.mp live
      obtain ⟨⟨p, i⟩, slot⟩ := isSome_iff_exists.mp slot
      refine .inl ⟨id0, type, p, i, on, covers, eq.trans slot, slot, ?_⟩
      obtain ⟨h', found, typed⟩ := h.typed id0 type on
      obtain ⟨reached, rfl⟩ := captblSlot_some h.shaped slot
      rw [entry, Lib.RadixTrie.lookup, ← leaf, reached, map_some] at found
      rw [header, some.inj found]
      exact typed
    · exact .inr ⟨none, fun id0 type on => free id0 _ (h.bound id0 type on) (h.sized on)⟩
  · refine .inr ⟨if_pos (not_lt.mp bound), fun id0 type on covers => bound ?_⟩
    have below := h.bound id0 type on
    have line := liveIn_line h.shaped below (h.sized on) covers
    have limit : captblMaxid = 65536 := rfl
    omega

/-- In every run, live capabilities do not overlap, have one size in a cache line, and are found by every id they
cover and no other. `captbl_add` and `captbl_del` complete, and if they fail then no lookup changes. -/
theorem capability_slots {m : Memory Nat Entry} {v : Nat} {t : Captbl} {o : Observed} (nonnull : v ≠ 0)
    (made : captblAlloc m (some v) = some (some t)) (reached : Reachable (table t) anyStep o) :
    (∀ id id' type type', o.live id = some type → o.live id' = some type' → id ≠ id' →
      ∀ k, ¬ (Covers id (cap2sz type) k ∧ Covers id' (cap2sz type') k)) ∧
    (∀ id id' type type', o.live id = some type → o.live id' = some type' → id / 4 = id' / 4 →
      cap2sz type = cap2sz type') ∧ (∀ id, (∃ id₀ type p i, o.live id₀ = some type ∧ Covers id₀ (cap2sz type) id ∧
        captblLkup o.t id = some (p, i) ∧ captblSlot o.t id₀ = some (p, i) ∧ (header o.t.mem p i).type = type) ∨
      captblLkup o.t id = none ∧ ∀ id₀ type, o.live id₀ = some type → ¬ Covers id₀ (cap2sz type) id) ∧
    (∀ cap type, ∃ t' p ret, captblAdd o.t cap type = some (t', p, ret) ∧ (ret = 0 ↔ p.isSome = true) ∧
      (ret ≠ 0 → ∀ id, captblLkup t' id = captblLkup o.t id)) ∧
    ∀ cap, (captblDel o.t cap).2 ≠ 0 → ∀ id, captblLkup (captblDel o.t cap).1 id = captblLkup o.t id := by
  have h := reached.invariant Tracked (alloc_tracked nonnull made) fun o call o' h _ next => perform_tracked h next
  refine ⟨?_, ?_, h.lookup, ?_, ?_⟩
  · rintro id id' type type' on on' ne k ⟨⟨first, last⟩, first', last'⟩
    have live := h.sized on
    have live' := h.sized on'
    rcases lt_or_gt_of_ne ne with before | after
    · have apart := liveIn_apart h.shaped (h.bound id type on) (h.bound id' type' on') live live' before
      omega
    · have apart := liveIn_apart h.shaped (h.bound id' type' on') (h.bound id type on) live' live after
      omega
  · intro id id' type type' on on' together
    exact liveIn_same h.shaped (h.bound id type on) (h.bound id' type' on') (h.sized on) (h.sized on') together
  · intro cap type
    rcases add_spec h.shaped cap type with ⟨ret, failed, nonzero⟩ | ⟨t', done, slot, -⟩
    · exact ⟨o.t, none, ret, failed, by simp [nonzero], fun _ _ => rfl⟩
    · exact ⟨t', _, 0, done, by simp [slot], fun nonzero => absurd rfl nonzero⟩
  · intro cap nonzero id
    rcases del_spec h.shaped cap with ⟨ret, failed, -⟩ | ⟨t', done, -⟩
    · rw [failed]
    · rw [done] at nonzero
      exact absurd rfl nonzero

def sample : Captbl := ⟨ertInit captblConsts (fun _ _ => .ptr 0) 1 false, .ptr 1⟩

/-- A line of small capabilities, one of large ones, and the first again after it is empty. -/
theorem mixed_lines_slots : ∃ o, Reachable (table sample) anyStep o ∧ o.live 2 = some .sinv ∧
    o.live 5 = some .thd ∧ captblLkup o.t 3 = captblSlot o.t 2 ∧ captblLkup o.t 1 = none ∧
    ∀ k, ¬ (Covers 2 (cap2sz .sinv) k ∧ Covers 5 (cap2sz .thd) k) := by
  refine exec_reaches [.expand 0 2 (some 2), .add 0 .thd, .add 1 .sinv, .del 0, .add 2 .sinv, .add 5 .thd]
    (fun o => o.live 2 = some .sinv ∧ o.live 5 = some .thd ∧ captblLkup o.t 3 = captblSlot o.t 2 ∧
      captblLkup o.t 1 = none) (by decide +kernel) fun o reached ⟨two, five, found, missing⟩ => ?_
  exact ⟨two, five, found, missing, (capability_slots (by decide) rfl reached).1 2 5 .sinv .thd two five (by decide)⟩

end SuperGlue.Guarantees.CapabilitySlots
