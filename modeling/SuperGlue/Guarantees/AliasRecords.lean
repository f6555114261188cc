import SuperGlue.Source.MemMgr.Stub

/-!
# Records of aliases

What the stub writes down for a new alias. The index of the records keeps twelve bits of an address, so what
is proved about them is about a set of addresses that differ in these.
-/
namespace SuperGlue.Guarantees.AliasTracking
open Option Function Lib.Transition Lib.Ring Source.MemMgr.Stub

def stubSystem (me : SpdId) : System State Label := ⟨init, step me⟩

/-- The addresses of `D` differ in the bits that the index keeps. -/
def Distinct (D : Addr → Prop) : Prop := ∀ a b, D a → D b → vaddr2id a = vaddr2id b → a = b

variable {s s' : State} {p q : Ptr} {me : SpdId} {answers : List Answer} {a : Addr}

theorem fresh_notMem (live : Finset Ptr) : fresh live ∉ live := by
  intro mem
  have le := Finset.le_sup (f := id) mem
  exact absurd le (Nat.not_succ_le_self _)

/-- `rdmm_alloc` with the fields that are written next. -/
def allocated (s : State) (a : Addr) (rd : RecData) : State :=
  { s with
    vect := update s.vect (vaddr2id a) (some (fresh s.live))
    live := insert (fresh s.live) s.live
    home := update s.home (fresh s.live) a
    node := update s.node (fresh s.live) rd }

@[simp]
theorem allocated_node_self (s : State) (a : Addr) (rd : RecData) : (allocated s a rd).node (fresh s.live) = rd :=
  update_self ..

theorem allocated_node_of_ne (a : Addr) (rd : RecData) (ne : p ≠ fresh s.live) : (allocated s a rd).node p = s.node p :=
  update_of_ne ne _ _

/-- A page that aliases are made from. -/
def madeParent (s : State) (q p : Ptr) : State :=
  { s.set q { s.node q with isParent := true } with links := s.links.add q p }

variable {sSpd : SpdId} {sAddr dAddr : Addr} {flags : Nat}

theorem track_new (linked : Linked s.links) (alone : s.links.next (fresh s.live) = fresh s.live)
    (free : rdmmLookup s dAddr = none) :
    track s sSpd sAddr flags dAddr =
      (match rdmmLookup (allocated s dAddr ⟨dAddr, sAddr, sSpd, flags, false⟩) sAddr with
        | some q => some (allocated s dAddr ⟨dAddr, sAddr, sSpd, flags, false⟩, q)
        | none => newParent (allocated s dAddr ⟨dAddr, sAddr, sSpd, flags, false⟩) sSpd sAddr flags dAddr).map
      fun (t, q) => madeParent t q (fresh s.live) := by
  rw [track, free, rdmmAlloc, if_neg (not_isSome_iff_eq_none.mpr free)]
  change rdCons _ (fresh s.live) sSpd sAddr flags dAddr = _
  rw [rdCons, linked_init linked alone]
  rfl

theorem newParent_eq (linked : Linked s.links) (alone : s.links.next (fresh s.live) = fresh s.live)
    (free : rdmmLookup s sAddr = none) :
    newParent s sSpd sAddr flags dAddr = some (allocated s sAddr ⟨dAddr, sAddr, sSpd, flags, false⟩, fresh s.live) := by
  rw [newParent, rdmmAlloc, if_neg (not_isSome_iff_eq_none.mpr free)]
  change some (_, _) = _
  rw [linked_init linked alone]
  rfl

theorem madeParent_allocated (s : State) (a : Addr) (rd : RecData) (p : Ptr) :
    madeParent (allocated s a rd) (fresh s.live) p =
      { allocated s a { rd with isParent := true } with links := s.links.add (fresh s.live) p } := by
  simp [madeParent, State.set, allocated]

theorem aliasPage_cases (run : mmanAliasPage me s sSpd sAddr flags dAddr answers = some s') :
    s' = s ∨ dAddr ≠ 0 ∧ track s sSpd sAddr flags dAddr = some s' := by
  induction answers with
  | nil => nomatch run
  | cons answer rest ih =>
    cases answer with
    | fault => exact ih run
    | einval =>
      rw [mmanAliasPage] at run
      split at run
      · exact .inl (some.inj run).symm
      · exact ih run
    | echild =>
      rw [mmanAliasPage] at run
      split at run
      · exact .inl (some.inj run).symm
      · split at run
        · exact ih run
        · nomatch run
    | value =>
      rw [mmanAliasPage] at run
      split at run
      · exact .inl (some.inj run).symm
      next untracked =>
        split at run
        next same => exact .inr ⟨fun zero => untracked (.inr (same.trans zero)), run⟩
        · nomatch run

theorem parentAt_some (found : parentAt s a = some p) : rdmmLookup s a = some p ∧ (s.node p).isParent :=
  filter_eq_some_iff.mp found

/-- The page addresses below 16 MB. -/
def firstWindow (a : Addr) : Prop := a % 2 ^ 12 = 0 ∧ a < 2 ^ 24

instance : DecidablePred firstWindow := fun _ => inferInstanceAs (Decidable (_ ∧ _))

theorem aligned_inj {a b : Nat} (alignedA : a % 4096 = 0) (belowA : a < 16777216) (alignedB : b % 4096 = 0)
    (belowB : b < 16777216) (same : a / 4096 % 4096 = b / 4096 % 4096) : a = b := by
  omega

theorem firstWindow_distinct : Distinct firstWindow :=
  fun _ _ inA inB same => aligned_inj inA.1 inA.2 inB.1 inB.2 same

end SuperGlue.Guarantees.AliasTracking
