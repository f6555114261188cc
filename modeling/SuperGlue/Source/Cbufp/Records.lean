import SuperGlue.Lib.Ring

/-!
# Records of written buffers

`cbufp/default/cbufp.c`: for every file the buffer manager keeps a ring of records, one per write,
which `cbufp_record` extends and `cbufp_reflect` reads. This is the ring of one file. The read-only
protection of the recorded buffer is left out.
-/
namespace SuperGlue.Source.Cbufp.Records
open List Function Lib.Ring

abbrev CbufId := Nat
abbrev RecPtr := Nat

/-- `struct cbid_fid_data`, without its file and links. -/
structure Record where
  cbid : CbufId
  len : Nat
  offset : Nat
  deriving DecidableEq, Repr

structure RecordRing where
  /-- What `cbidfid_lookup` answers. -/
  head : Option RecPtr
  info : RecPtr → Record
  links : Links RecPtr
  /-- The objects that the slab has handed out. -/
  used : Finset RecPtr

def noRecords : RecordRing := ⟨none, fun _ => ⟨0, 0, 0⟩, ⟨id, id⟩, ∅⟩

/-- What the slab answers: the head, where one is needed, and the record. -/
structure Slab where
  head : RecPtr
  cfd : RecPtr
  deriving DecidableEq, Repr

variable (r : RecordRing)

/-- `cbidfid_alloc`. -/
def cbidfidAlloc (head : RecPtr) : Option RecordRing :=
  if head ∈ r.used then none
  else some { r with
    head := some head
    links := r.links.init head
    used := insert head r.used }

/-- A new record goes to the front of the ring. -/
def addRecord (head : RecPtr) (rec_ : Record) (cfd : RecPtr) : Option RecordRing :=
  if cfd ∈ r.used then none
  else some { r with
    info := update r.info cfd rec_
    links := r.links.add head cfd
    used := insert cfd r.used }

/-- `cbufp_record` with a slab that answers; its caller asserts that it does not fail. -/
def cbufpRecord (rec_ : Record) (slab : Slab) : Option RecordRing :=
  match r.head with
  | some head => addRecord r head rec_ slab.cfd
  | none => (cbidfidAlloc r slab.head).bind fun r => addRecord r slab.head rec_ slab.cfd

/-! ## Reading the ring -/

/-- The loop that counts, from `cfd` to the head. -/
def reflectCount (r : RecordRing) (head : RecPtr) : Nat → RecPtr → Nat → Option Nat
  | 0, _, _ => none
  | fuel + 1, cfd, total =>
    if cfd = head then some total else reflectCount r head fuel (r.links.next cfd) (total + 1)

/-- The loop that looks for the record number `nth`; it stops at the head. -/
def reflectNth (r : RecordRing) (head : RecPtr) (nth : Nat) : Nat → RecPtr → Nat → Option RecPtr
  | 0, _, _ => none
  | fuel + 1, cfd, index =>
    if cfd = head ∨ index = nth then some cfd
    else reflectNth r head nth fuel (r.links.next cfd) (index + 1)

/-- `cbufp_reflect`; `none` is a loop that has not come to the head after all objects in use. -/
def cbufpReflect (nth type : Nat) : Option Int :=
  match r.head with
  | none => some (-1)
  | some head =>
    let first := r.links.next head
    if first = head then some (-1)
    else
      let fuel := r.used.card + 1
      match type with
      | 0 => (reflectCount r head fuel first 0).map fun n => (n : Int)
      | 1 => (reflectNth r head nth fuel first 0).map fun cfd => ((r.info cfd).offset : Int)
      | 2 => (reflectNth r head nth fuel first 0).map fun cfd => ((r.info cfd).len : Int)
      | 3 => (reflectNth r head nth fuel first 0).map fun cfd => ((r.info cfd).cbid : Int)
      | _ => some (-1)

/-! ## What is recorded -/

/-- The ring holds these records, from the front. -/
inductive Holds (r : RecordRing) : List Record → Prop where
  | none (head : r.head = none) : Holds r []
  | ring {head : RecPtr} {nodes : List RecPtr} (found : r.head = some head)
      (ring : IsRing r.links (head :: nodes)) (used : ∀ p ∈ head :: nodes, p ∈ r.used) :
      Holds r (nodes.map r.info)

theorem noRecords_holds : Holds noRecords [] := .none rfl

variable {r r' : RecordRing} {records : List Record} {head cfd : RecPtr} {nodes : List RecPtr} {rec_ : Record}

theorem addRecord_holds (found : r.head = some head) (ring : IsRing r.links (head :: nodes))
    (used : ∀ p ∈ head :: nodes, p ∈ r.used) (added : addRecord r head rec_ cfd = some r') :
    Holds r' (rec_ :: nodes.map r.info) := by
  unfold addRecord at added
  split at added
  · contradiction
  rename_i fresh
  cases added
  have off : cfd ∉ head :: nodes := fun member => fresh (used cfd member)
  have ring' := isRing_add ring off
  have infos : (cfd :: nodes).map (update r.info cfd rec_) = rec_ :: nodes.map r.info := by
    have others : nodes.map (update r.info cfd rec_) = nodes.map r.info := by
      apply map_congr_left
      intro p member
      have other : p ≠ cfd := fun eq => off (eq ▸ mem_cons_of_mem head member)
      exact update_of_ne other ..
    simp [others]
  rw [← infos]
  refine .ring found ring' ?_
  intro p member
  simp only [mem_cons] at member
  rcases member with rfl | rfl | member
  · exact Finset.mem_insert_of_mem (used p mem_cons_self)
  · exact Finset.mem_insert_self ..
  · exact Finset.mem_insert_of_mem (used p (mem_cons_of_mem head member))

/-- A write is recorded in front of the older ones. -/
theorem cbufpRecord_holds {slab : Slab} (h : Holds r records)
    (added : cbufpRecord r rec_ slab = some r') : Holds r' (rec_ :: records) := by
  cases h with
  | none head =>
    simp only [cbufpRecord, head] at added
    obtain ⟨r1, allocated, added⟩ := Option.bind_eq_some_iff.mp added
    unfold cbidfidAlloc at allocated
    split at allocated
    · contradiction
    · cases allocated
      have ring : IsRing (r.links.init slab.head) [slab.head] := isRing_singleton.mpr (by simp [Links.init])
      exact addRecord_holds rfl ring (by simp) added
  | ring found ring used =>
    simp only [cbufpRecord, found] at added
    exact addRecord_holds found ring used added

/-! ## What is reflected -/

theorem reflectCount_path {fuel total : Nat} (path : Path r.links.next cfd nodes head) (off : head ∉ cfd :: nodes)
    (enough : nodes.length + 1 < fuel) : reflectCount r head fuel cfd total = some (total + (nodes.length + 1)) := by
  induction nodes generalizing cfd fuel total with
  | nil =>
    obtain ⟨fuel, rfl⟩ : ∃ n, fuel = n + 2 := ⟨fuel - 2, by simp at enough; omega⟩
    have last : r.links.next cfd = head := path
    have other := (ne_of_not_mem_cons off).symm
    simp [reflectCount, other, last]
  | cons d nodes ih =>
    obtain ⟨fuel, rfl⟩ : ∃ n, fuel = n + 1 := ⟨fuel - 1, by omega⟩
    obtain ⟨rfl, rest⟩ := path
    simp only [mem_cons, not_or] at off
    rw [reflectCount, if_neg (Ne.symm off.1), ih rest (by simp [off]) (by simp at enough; omega)]
    simp
    omega

theorem reflectNth_path {fuel nth : Nat} (index : Nat) (path : Path r.links.next cfd nodes head)
    (off : head ∉ cfd :: nodes) (enough : nodes.length + 1 < fuel) (inside : nth < nodes.length + 1) :
    reflectNth r head (index + nth) fuel cfd index = (cfd :: nodes)[nth]? := by
  induction nodes generalizing cfd fuel index nth with
  | nil =>
    obtain ⟨fuel, rfl⟩ : ∃ n, fuel = n + 1 := ⟨fuel - 1, by omega⟩
    obtain rfl : nth = 0 := by simpa using inside
    simp [reflectNth]
  | cons d nodes ih =>
    obtain ⟨fuel, rfl⟩ : ∃ n, fuel = n + 1 := ⟨fuel - 1, by omega⟩
    obtain ⟨rfl, rest⟩ := path
    simp only [mem_cons, not_or] at off
    cases nth with
    | zero => simp [reflectNth]
    | succ nth =>
      have later : index + (nth + 1) = index + 1 + nth := by omega
      have before : index ≠ index + 1 + nth := by omega
      rw [reflectNth, later, if_neg (by simp [Ne.symm off.1, before]),
        ih (index + 1) rest (by simp [off]) (by simp at enough; omega) (by simpa using inside)]
      simp

theorem cbufpReflect_none (h : Holds r []) (nth type : Nat) : cbufpReflect r nth type = some (-1) := by
  generalize none_ : ([] : List Record) = records at h
  cases h with
  | none head => simp [cbufpReflect, head]
  | @ring head nodes found ring used =>
    obtain rfl : nodes = [] := by simpa using none_.symm
    simp [cbufpReflect, found, isRing_singleton.mp ring]

/-- The loops run to their end and find the records in the order of the ring. -/
theorem cbufpReflect_some (h : Holds r records) (some_ : records ≠ []) :
    (∀ nth, cbufpReflect r nth 0 = some (records.length : Int)) ∧
      ∀ nth rec_, records[nth]? = some rec_ → cbufpReflect r nth 1 = some (rec_.offset : Int) ∧
        cbufpReflect r nth 2 = some (rec_.len : Int) ∧ cbufpReflect r nth 3 = some (rec_.cbid : Int) := by
  cases h with
  | none => contradiction
  | @ring head nodes found ring used =>
    cases nodes with
    | nil => simp at some_
    | cons first nodes =>
      obtain ⟨nodup, start, path⟩ := ring
      have off := (nodup_cons.mp nodup).1
      have other := (ne_of_not_mem_cons off).symm
      have enough : nodes.length + 1 < r.used.card + 1 := by
        have inside : (head :: first :: nodes).toFinset ⊆ r.used := by
          intro p mem
          exact used p (mem_toFinset.mp mem)
        have card := Finset.card_le_card inside
        rw [toFinset_card_of_nodup nodup] at card
        simp only [length_cons] at card
        omega
      refine ⟨?_, ?_⟩
      · intro nth
        simp [cbufpReflect, found, start, other, reflectCount_path path off enough]
      intro nth rec_ at_
      rw [getElem?_map, Option.map_eq_some_iff] at at_
      obtain ⟨cfd, at_, rfl⟩ := at_
      have inside : nth < nodes.length + 1 := by
        simpa using (List.getElem?_eq_some_iff.mp at_).1
      have walk := reflectNth_path 0 path off enough inside
      rw [Nat.zero_add, at_] at walk
      simp [cbufpReflect, found, start, other, walk]

end SuperGlue.Source.Cbufp.Records
