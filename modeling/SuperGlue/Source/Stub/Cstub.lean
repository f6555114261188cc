import Mathlib
/-!
# Invocations of a server by a client stub

`include/cstub.h` and the counters of `kernel/include/recovery.h` that decide what `CSTUB_INVOKE`
yields. The kernel keeps a fault count for the server and one for each capability of the client for
it; `COS_CAP_FAULT_UPDATE` sets all of the latter. An invocation through a capability that is behind
yields a fault, and so does the return of a thread that was inside the server when it failed.
-/
namespace SuperGlue.Source.Stub.Cstub

/-- Counters are `unsigned long`. -/
def counterModulus : Nat := 2 ^ 32

/-- What a client and the kernel know about the faults of one server. -/
structure Link where
  /-- `fault.cnt` of the server. -/
  faultCnt : Nat
  /-- `fault.cnt` of the client's capabilities for the server. -/
  capCnt : Nat
  /-- `global_fault_cnt` of the stub. -/
  globalFaultCnt : Nat
  deriving DecidableEq, Repr

def Link.init : Link := ⟨0, 0, 0⟩

/-- `COS_SPD_FAULT_TRIGGER`. -/
def Link.trigger (l : Link) : Link := { l with faultCnt := l.faultCnt + 1 }

/-- Does an invocation that starts now reach the server? -/
def Link.reaches (l : Link) : Bool := l.capCnt == l.faultCnt

/-- `CSTUB_FAULT_UPDATE`: `none` is its `assert(0)`. -/
def Link.faultUpdate (l : Link) : Option Link :=
  if l.faultCnt = 0 then none
  else some { l with
    capCnt := l.faultCnt
    globalFaultCnt := (l.globalFaultCnt + 1) % counterModulus }

variable {l : Link}

/-- A capability can be behind after a fault only. -/
theorem Link.failed (lag : l.capCnt ≤ l.faultCnt) (behind : ¬ l.reaches) : l.faultCnt ≠ 0 := by
  simp only [Link.reaches, beq_iff_eq] at behind
  omega

theorem Link.faultUpdate_eq (fault : l.faultCnt ≠ 0) (small : l.globalFaultCnt + 1 < counterModulus) :
    l.faultUpdate = some ⟨l.faultCnt, l.faultCnt, l.globalFaultCnt + 1⟩ := by
  rw [Link.faultUpdate, if_neg fault, Nat.mod_eq_of_lt small]

/-- What the plain client stub of `lib/c_stub.S` returns for an invocation that yields a fault. -/
def fatalErr : Int := -0xDEAD

end SuperGlue.Source.Stub.Cstub
