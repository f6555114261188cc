import Mathlib

/-!
# Threads of the kernel

`thread.c`: the array of threads, with the list of the free ones through `freelist_next`. The page pool gives its
answer with the call, and each call says which pages it puts back. The compare-and-swap loops run without
interference. Reading through the null pointer ends the run.
-/
namespace SuperGlue.Source.Kernel.Threads
open Function

def maxNumThreads : Nat := 128

abbrev Page := Nat

structure Thread where
  freelistNext : Option Nat
  dataRegion : Option Page
  deriving DecidableEq, Repr

/-- Threads are named by their index in `threads`. -/
structure State where
  freelistHead : Option Nat
  threads : Nat → Thread

def thdInitAll : State :=
  ⟨some 0, fun i => ⟨if i = maxNumThreads - 1 then none else some (i + 1), none⟩⟩

/-- `thd_alloc`. The link of the first free thread is read before it is known that there is one. -/
def thdAlloc (s : State) (page : Option Page) : Option (State × Option Nat) :=
  s.freelistHead.map fun thd =>
    let s := { s with freelistHead := (s.threads thd).freelistNext }
    match page with
    | none => ({ s with freelistHead := some thd }, none)
    | some page => ({ s with threads := update s.threads thd ⟨none, some page⟩ }, some thd)

def thdFree (s : State) : Option Nat → State × Option Page
  | none => (s, none)
  | some thd =>
    (⟨some thd, update s.threads thd { s.threads thd with freelistNext := s.freelistHead }⟩,
      (s.threads thd).dataRegion)

/-- The rounds of `thd_free_all` for the threads given. -/
def freeLoop : List Nat → State → State × List (Nat × Page)
  | [], s => (s, [])
  | i :: rest, s =>
    if (s.threads i).freelistNext = none then
      let (s, page) := thdFree s (some i)
      let (s, pages) := freeLoop rest s
      (s, page.toList.map (i, ·) ++ pages)
    else freeLoop rest s

def thdFreeAll (s : State) : State × List (Nat × Page) := freeLoop (List.range maxNumThreads) s

end SuperGlue.Source.Kernel.Threads
