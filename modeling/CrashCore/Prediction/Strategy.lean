import CrashCore.Common.Types

/-! The decision contract (`prediction/acie/strategy.hpp`). The arithmetic is exact: a literal is the fraction that it
shows, and no number is infinite or undefined. -/

namespace CrashCore

inductive StrategyMode
  | quality | highFrequency | conservative
deriving DecidableEq, Repr

inductive StrategyAction
  | skip | reducedEntry | entry
deriving DecidableEq, Repr

structure StrategyConfig where
  mode : StrategyMode := .quality
  defaultTarget : Double := 13 / 10
  qualityEdge : Double := 2 / 100
  reducedEdge : Double := 5 / 1000
  conservativeExtra : Double := 3 / 100
  minConfidence : Double := 55 / 100
  reducedMinConfidence : Double := 45 / 100
  warmMinSamples : Nat := 20

structure StrategyInput where
  probability : Double := 0
  confidence : Double := 0
  targetMult : Double := 13 / 10
  samplesSeen : Nat := 0
  modelStale : Bool := false
  entitlementOk : Bool := true

structure StrategyResult where
  action : StrategyAction := .skip
  decision : PredictionDecision := .skip
  fairProbability : Double := 0
  requiredProbability : Double := 0
  edgeUsed : Double := 0
  reason : String := ""
deriving DecidableEq

/-- The `isfinite` branch has no counterpart in exact arithmetic. -/
def fairProbability (targetMult : Double) : Double := if ¬1 < targetMult then 1 / (13 / 10) else 1 / targetMult

namespace StrategyConfig

/-- The edge and the confidence that the mode asks for. -/
def edge (cfg : StrategyConfig) : Double :=
  match cfg.mode with
  | .highFrequency => cfg.reducedEdge
  | .conservative => cfg.qualityEdge + cfg.conservativeExtra
  | .quality => cfg.qualityEdge

def minConf (cfg : StrategyConfig) : Double :=
  match cfg.mode with
  | .highFrequency => cfg.reducedMinConfidence
  | .conservative | .quality => cfg.minConfidence

end StrategyConfig

/-- The fair probability of the target, or else of the default one. -/
def StrategyInput.fair (i : StrategyInput) (cfg : StrategyConfig) : Double :=
  fairProbability (if 1 < i.targetMult then i.targetMult else cfg.defaultTarget)

def evaluateStrategy (i : StrategyInput) (cfg : StrategyConfig) : StrategyResult :=
  let r : StrategyResult := { fairProbability := i.fair cfg }
  if ¬i.entitlementOk then { r with reason := "entitlement_denied" }
  else if i.modelStale then { r with reason := "model_stale" }
  else if i.samplesSeen < cfg.warmMinSamples then { r with reason := "cold_start" }
  else if i.probability ≤ 0 ∧ i.confidence ≤ 0 then { r with reason := "zero_signal" }
  else
    let r := { r with edgeUsed := cfg.edge, requiredProbability := r.fairProbability + cfg.edge }
    if i.confidence < cfg.minConf then { r with reason := "low_confidence" }
    else if r.requiredProbability ≤ i.probability then
      { r with action := .entry, decision := .enter, reason := "entry_quality" }
    else
      let reducedReq := r.fairProbability + cfg.reducedEdge
      if cfg.mode ≠ .conservative ∧ reducedReq ≤ i.probability ∧ cfg.reducedMinConfidence ≤ i.confidence then
        { r with
          action := .reducedEntry
          decision := .enter
          edgeUsed := cfg.reducedEdge
          requiredProbability := reducedReq
          reason := "reduced_entry" }
      else { r with reason := "below_edge" }

/-- The decision of an action. -/
def toDecision : StrategyAction → PredictionDecision
  | .entry | .reducedEntry => .enter
  | .skip => .skip

/-! ### When it enters -/

/-- There is a signal to look at. -/
structure StrategyInput.Ready (i : StrategyInput) (cfg : StrategyConfig) : Prop where
  entitled : i.entitlementOk = true
  fresh : i.modelStale = false
  warm : cfg.warmMinSamples ≤ i.samplesSeen
  signal : 0 < i.probability ∨ 0 < i.confidence

/-- The signal is strong enough for a full entry, or for a reduced one. -/
structure StrategyInput.Strong (i : StrategyInput) (cfg : StrategyConfig) : Prop where
  confident : cfg.minConf ≤ i.confidence
  edge : i.fair cfg + cfg.edge ≤ i.probability ∨
    (cfg.mode ≠ .conservative ∧ i.fair cfg + cfg.reducedEdge ≤ i.probability ∧ cfg.reducedMinConfidence ≤ i.confidence)

variable {i : StrategyInput} {cfg : StrategyConfig}

theorem evaluateStrategy_decision (i : StrategyInput) (cfg : StrategyConfig) :
    (evaluateStrategy i cfg).decision = toDecision (evaluateStrategy i cfg).action := by
  unfold evaluateStrategy
  grind [toDecision]

theorem enter_iff : (evaluateStrategy i cfg).decision = .enter ↔ i.Ready cfg ∧ i.Strong cfg := by
  unfold evaluateStrategy
  by_cases hentitled : i.entitlementOk = true
  case neg =>
    rw [if_pos hentitled]
    exact iff_of_false PredictionDecision.noConfusion fun h => hentitled h.1.entitled
  rw [if_neg (not_not_intro hentitled)]
  by_cases hstale : i.modelStale = true
  · rw [if_pos hstale]
    exact iff_of_false PredictionDecision.noConfusion fun h => Bool.eq_false_iff.mp h.1.fresh hstale
  rw [if_neg hstale]
  by_cases hcold : i.samplesSeen < cfg.warmMinSamples
  · rw [if_pos hcold]
    exact iff_of_false PredictionDecision.noConfusion fun h => Nat.not_le_of_lt hcold h.1.warm
  rw [if_neg hcold]
  by_cases hzero : i.probability ≤ 0 ∧ i.confidence ≤ 0
  · rw [if_pos hzero]
    exact iff_of_false PredictionDecision.noConfusion fun h =>
      h.1.signal.elim (not_lt_of_ge hzero.1) (not_lt_of_ge hzero.2)
  rw [if_neg hzero]
  have hready : i.Ready cfg := by
    refine ⟨hentitled, Bool.eq_false_iff.mpr hstale, Nat.le_of_not_lt hcold, ?_⟩
    rwa [not_and_or, not_le, not_le] at hzero
  rw [and_iff_right hready]
  dsimp only
  by_cases hlow : i.confidence < cfg.minConf
  · rw [if_pos hlow]
    exact iff_of_false PredictionDecision.noConfusion fun h => not_le_of_gt hlow h.confident
  rw [if_neg hlow]
  by_cases hfull : i.fair cfg + cfg.edge ≤ i.probability
  · rw [if_pos hfull]
    exact iff_of_true rfl ⟨not_lt.mp hlow, Or.inl hfull⟩
  rw [if_neg hfull]
  by_cases hreduced : cfg.mode ≠ .conservative ∧ i.fair cfg + cfg.reducedEdge ≤ i.probability ∧
      cfg.reducedMinConfidence ≤ i.confidence
  · rw [if_pos hreduced]
    exact iff_of_true rfl ⟨not_lt.mp hlow, Or.inr hreduced⟩
  · rw [if_neg hreduced]
    exact iff_of_false PredictionDecision.noConfusion fun h => h.edge.elim hfull hreduced

end CrashCore
