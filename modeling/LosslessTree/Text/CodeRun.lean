/-!
Sets of characters given as sorted runs of code points. A run names every `step`-th code point
between its ends, so alternating cases take one run. Runs of one table do not interleave.
-/

namespace LosslessTree

structure CodeRun where
  first : Nat
  last : Nat
  step : Nat
  deriving DecidableEq, Repr

namespace CodeRun

def covers (run : CodeRun) (code : Nat) : Bool :=
  run.first ≤ code && code ≤ run.last && (code - run.first) % run.step == 0

/-- Looks the code point up in a table whose runs ascend: the first run that does not end
before the code point decides. -/
def holds (code : Nat) : List CodeRun → Bool
  | [] => false
  | run :: runs => if code ≤ run.last then run.covers code else holds code runs

@[simp] theorem holds_nil (code : Nat) : holds code [] = false := rfl

theorem holds_cons_of_le {code : Nat} {run : CodeRun} (hle : code ≤ run.last)
    (runs : List CodeRun) : holds code (run :: runs) = run.covers code := by
  simp [holds, hle]

theorem holds_cons_of_lt {code : Nat} {run : CodeRun} (hlt : run.last < code)
    (runs : List CodeRun) : holds code (run :: runs) = holds code runs := by
  simp [holds, Nat.not_le.mpr hlt]

end CodeRun

end LosslessTree
