import CrashCore.Common.Types

/-! Statistics of the rounds (`ingestion/stats.hpp`). The labels of the ranges and what `snapshot` computes are left
out. -/

namespace CrashCore

def HIGH_THRESHOLD : Double := 2

structure RangeBucket where
  key : String
  min : Double := 0
  max : Option Double
  count : Nat := 0
deriving DecidableEq

namespace RangeBucket

def Contains (b : RangeBucket) (multiplier : Double) : Prop := b.min ≤ multiplier ∧ ∀ max ∈ b.max, multiplier < max

instance (b : RangeBucket) (multiplier : Double) : Decidable (b.Contains multiplier) := inferInstanceAs (Decidable (_ ∧ _))

end RangeBucket

inductive StreakKind
  | none | low | high
deriving DecidableEq, Repr

structure StreakSnapshot where
  currentKind : StreakKind := .none
  currentCount : Nat := 0
  maxLow : Nat := 0
  maxHigh : Nat := 0

def defaultRangeDefs : List RangeBucket := [
  { key := "1-1.2", min := 1, max := some (.nearest (6 / 5)) },
  { key := "1.2-1.5", min := .nearest (6 / 5), max := some (3 / 2) },
  { key := "1.5-2", min := 3 / 2, max := some 2 },
  { key := "2-3", min := 2, max := some 3 },
  { key := "3-5", min := 3, max := some 5 },
  { key := "5-10", min := 5, max := some 10 },
  { key := "10-50", min := 10, max := some 50 },
  { key := "50+", min := 50, max := none }]

structure CrashStatsAccumulator where
  values : List Double := []
  ranges : List RangeBucket := defaultRangeDefs
  streak : StreakSnapshot := {}
  count : Nat := 0
  sum : Double := 0
  highest : Option Double := none
  lowest : Option Double := none

namespace CrashStatsAccumulator

/-- The first of the buckets that contains the multiplier counts it. -/
def countIn (multiplier : Double) : List RangeBucket → List RangeBucket
  | [] => []
  | b :: bs => if b.Contains multiplier then { b with count := b.count + 1 } :: bs else b :: countIn multiplier bs

def addStreak (s : StreakSnapshot) (multiplier : Double) : StreakSnapshot :=
  if multiplier < HIGH_THRESHOLD then
    let currentCount := if s.currentKind = .low then s.currentCount + 1 else 1
    { s with currentKind := .low, currentCount, maxLow := max s.maxLow currentCount }
  else
    let currentCount := if s.currentKind = .high then s.currentCount + 1 else 1
    { s with currentKind := .high, currentCount, maxHigh := max s.maxHigh currentCount }

def addRound (a : CrashStatsAccumulator) (multiplier : Double) : CrashStatsAccumulator where
  values := a.values ++ [multiplier]
  ranges := countIn multiplier a.ranges
  streak := addStreak a.streak multiplier
  count := a.count + 1
  sum := Double.nearest (a.sum + multiplier)
  highest := if ∀ h ∈ a.highest, h < multiplier then some multiplier else a.highest
  lowest := if ∀ l ∈ a.lowest, multiplier < l then some multiplier else a.lowest

end CrashStatsAccumulator
end CrashCore
