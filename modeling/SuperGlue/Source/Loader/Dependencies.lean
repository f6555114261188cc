import Mathlib

/-!
# The dependencies of the loaded services

`verify_dependency_soundness` of `link_load/cos_loader.c`.
-/
namespace SuperGlue.Source.Loader.Dependencies
open Function List

variable {n : Nat} (depth : Fin n → Nat)

def raise (service : Fin n) (currentDepth : Nat) : Fin n → Nat :=
  if depth service < currentDepth then update depth service currentDepth else depth

/-- `rec_verify_dag` on the depths of `n` services; `none` if there is a cycle. -/
def recVerifyDag (dependencies : Fin n → List (Fin n)) (maxDepth currentDepth : Nat) (depth : Fin n → Nat)
    (service : Fin n) : Option (Fin n → Nat) :=
  if maxDepth < currentDepth then none
  else
    (dependencies service).foldlM (recVerifyDag dependencies maxDepth (currentDepth + 1))
      (raise depth service currentDepth)
termination_by maxDepth + 1 - currentDepth

def verifyDependencySoundness (dependencies : Fin n → List (Fin n)) (depth : Fin n → Nat) : Option (Fin n → Nat) :=
  (finRange n).foldlM (recVerifyDag dependencies n 0) depth

end SuperGlue.Source.Loader.Dependencies
