import CrashCore.Common.Types
import Mathlib.Data.List.Sort

/-! Calibration of scores by pooled bins (`prediction/isotonic_calibrator.hpp`). -/

namespace CrashCore

/-- The score up to which a bin goes, and its value. -/
abbrev IsotonicCalibrator.Bin := Double × Double

structure IsotonicCalibrator where
  bins : List IsotonicCalibrator.Bin := []
  fitted : Bool := false

namespace IsotonicCalibrator

/-- The order of pairs. -/
def PairLE (p q : Double × Int) : Prop := p.1 < q.1 ∨ (p.1 = q.1 ∧ p.2 ≤ q.2)

instance : DecidableRel PairLE := fun _ _ => inferInstanceAs (Decidable (_ ∨ _))

/-- `(a + b) / 2.0` -/
def average (a b : Double) : Double := Double.nearest (Double.nearest (a + b) / 2)

/-- The pass over the bins behind `prev`: a bin below the one before it is averaged with it. -/
def poolFrom (prev : Bin) : List Bin → List Bin
  | [] => [prev]
  | b :: bs =>
    if b.2 < prev.2 then (prev.1, average b.2 prev.2) :: poolFrom (b.1, average b.2 prev.2) bs
    else prev :: poolFrom b bs

def pool : List Bin → List Bin
  | [] => []
  | b :: bs => poolFrom b bs

/-- One bin for each label. -/
def toBin (p : Double × Int) : Bin := (p.1, p.2)

def fit (c : IsotonicCalibrator) (scores : List Double) (labels : List Int) : IsotonicCalibrator :=
  if scores.length ≠ labels.length ∨ scores = [] then c
  else
    { bins := pool (((scores.zip labels).insertionSort PairLE).map toBin)
      fitted := true }

/-- The first bin that goes up to the score. -/
def binOf (score : Double) (bs : List Bin) : Option Bin := bs.find? fun b => score ≤ b.1

def calibrate (c : IsotonicCalibrator) (score : Double) : Double :=
  if ¬c.fitted then score
  else ((binOf score c.bins).or c.bins.getLast?).elim score Prod.snd

end IsotonicCalibrator
end CrashCore
