import Mathlib

/-!
# Removing a frame of an invocation stack

`thd_invstk_rem_nth` of `kernel/include/__thread_rec`, with the frames whole. `none` is a failed assertion.
-/
namespace SuperGlue.Source.Kernel.Frames
open Function

/-- `struct thd_invocation_frame`. -/
structure Frame where
  currentCompositeSpd : Nat
  spd : Nat
  sp : Nat
  ip : Nat
  fault : Nat
  deriving DecidableEq, Repr

structure Thread where
  stackPtr : Int
  stackBase : Nat → Frame

variable (thd : Thread)

def thdInvstkMoveNth (nth : Nat) (rem : Bool) : Option Thread :=
  if nth ≠ 0 ∧ nth < thd.stackPtr then
    let keep := thd.stackBase (nth + 1)
    let moved := if rem then
        { thd.stackBase nth with spd := keep.spd, currentCompositeSpd := keep.currentCompositeSpd }
      else keep
    some { thd with stackBase := update thd.stackBase nth moved }
  else none

/-- The loop of `thd_invstk_rem_nth` for `n` frames from `i` on. -/
def shift : Nat → Nat → Bool → Thread → Option Thread
  | 0, _, _, thd => some thd
  | n + 1, i, first, thd => (thdInvstkMoveNth thd i first).bind (shift n (i + 1) false)

/-- The thread, the composites that are released, and what is returned. -/
def thdInvstkRemNth (nth : Int) : Option (Thread × List Nat × Int) :=
  let idx := (thd.stackPtr - nth).toNat
  if nth < 0 ∨ nth ≥ thd.stackPtr then some (thd, [], -1)
  else (shift nth.toNat idx true thd).map fun after =>
    ({ after with stackPtr := after.stackPtr - 1 }, [(thd.stackBase idx).currentCompositeSpd], 0)

end SuperGlue.Source.Kernel.Frames
