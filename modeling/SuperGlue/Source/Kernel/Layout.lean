import Mathlib

/-!
# The layout of components in virtual memory

`spd.c`: each component records its ranges of addresses, and a global table says for every 4MB whose they are.
-/
namespace SuperGlue.Source.Kernel.Layout
open List Function

abbrev Spd := Nat

/-- `HPAGE_SIZE`, which is also `SERVICE_SIZE`. -/
def hpageSize : Nat := 4194304

abbrev maxSpdVasLocations : Nat := 8

structure Location where
  lowestAddr : Nat
  size : Nat

structure State where
  /-- The table has `PGD_PER_PTBL` entries. What follows it in memory counts as more of them. -/
  virtualSpdLayout : Nat → Option Spd
  location : Spd → Fin maxSpdVasLocations → Location
  /-- Whether the component has a page table. -/
  pgTbl : Spd → Bool

variable (s : State)

/-- The loop that stores to `n` entries of the table. -/
def State.fill (i n : Nat) (spd : Option Spd) : State :=
  { s with virtualSpdLayout := fun j => if i ≤ j ∧ j < i + n then spd else s.virtualSpdLayout j }

def virtualNamespaceAlloc (spd : Spd) (addr size : Nat) : Option State :=
  if (range' (addr / hpageSize) (size / hpageSize)).any fun i => (s.virtualSpdLayout i).isSome then none
  else some (s.fill (addr / hpageSize) (size / hpageSize) spd)

def virtualNamespaceQuery (addr : Nat) : Option Spd := s.virtualSpdLayout (addr / hpageSize)

/-- The check goes up to `addr + (size >> HPAGE_SHIFT)`, in steps of `HPAGE_SIZE`. -/
def virtualNamespaceFree (spd : Spd) (addr size : Nat) : Option State :=
  let rounds := (size / hpageSize + hpageSize - 1) / hpageSize
  if (range rounds).any fun k => virtualNamespaceQuery s (addr + k * hpageSize) != some spd then none
  else some (s.fill (addr / hpageSize) (size / hpageSize) none)

/-- The entry `i` of the component is stored. -/
def State.record (spd : Spd) (i : Fin maxSpdVasLocations) (l : Location) : State :=
  { s with location := update s.location spd (update (s.location spd) i l) }

def spdAddLocation (spd : Spd) (base size : Nat) : State × Int :=
  if s.pgTbl spd ∧ base % hpageSize = 0 then
    match (finRange _).find? fun i => (s.location spd i).size == 0, virtualNamespaceAlloc s spd base size with
    | some i, some s' => (s'.record spd i ⟨base, size⟩, 0)
    | _, _ => (s, -1)
  else (s, -1)

def spdRemLocation (spd : Spd) (base size : Nat) : State × Int :=
  if s.pgTbl spd then
    match (finRange _).find? fun i =>
        (s.location spd i).size == size && (s.location spd i).lowestAddr == base,
      virtualNamespaceFree s spd base size with
    | some i, some s' => (s'.record spd i ⟨0, 0⟩, 0)
    | _, _ => (s, -1)
  else (s, -1)

end SuperGlue.Source.Kernel.Layout
