import CrashCore.Common.Rounding
import CrashCore.Common.Types
import Mathlib.Data.List.Sort

/-! Walk-forward folds (`prediction/walk_forward.hpp`). Sizes have 64 bits; the arithmetic with `testFrac` is exact. -/

namespace CrashCore

structure WalkForwardFold where
  trainStart : UInt64 := 0
  trainEnd : UInt64 := 0
  testStart : UInt64 := 0
  testEnd : UInt64 := 0
  metric : Double := 0

namespace WalkForwardFold

def Trains (fold : WalkForwardFold) (i : Nat) : Prop := fold.trainStart.toNat ≤ i ∧ i < fold.trainEnd.toNat

def Tests (fold : WalkForwardFold) (i : Nat) : Prop := fold.testStart.toNat ≤ i ∧ i < fold.testEnd.toNat

end WalkForwardFold

namespace WalkForwardEngine

/-- `max_size()` of a vector of folds, which have 40 bytes each. -/
def maxFolds : Nat := (2 ^ 63 - 1) / 40

def testSize (n nFolds : UInt64) (testFrac : Double) : UInt64 :=
  let size := UInt64.ofNat (Double.truncate (n.toNat * testFrac / nFolds.toNat)).toNat
  if 1 < size then size else 1

/-- The fold of one turn of the loop. -/
def fold (n testSize f : UInt64) : WalkForwardFold :=
  let testEnd := n - f * testSize
  let testStart := if testSize < testEnd then testEnd - testSize else 0
  { testEnd, testStart, trainStart := 0, trainEnd := testStart }

/-- The folds that the loop keeps. -/
def folds (n nFolds testSize : UInt64) : List WalkForwardFold :=
  ((List.range nFolds.toNat).map fun f => fold n testSize (UInt64.ofNat f)).filter fun fold =>
    fold.trainStart < fold.trainEnd

/-- Nothing is returned when the vector cannot grow any more: `push_back` throws. -/
def split (n nFolds : UInt64) (testFrac : Double) : Option (List WalkForwardFold) :=
  if n < nFolds * 2 then some []
  else
    let folds := folds n nFolds (testSize n nFolds testFrac)
    if folds.length ≤ maxFolds then some folds else none

end WalkForwardEngine
end CrashCore
