import CrashCore.Prediction.Strategy
import Mathlib.Tactic.Linarith

/-! The rolling edge that outcomes move (`prediction/acie/adaptive_edge.hpp`). -/

namespace CrashCore

structure AdaptiveEdgeConfig where
  initialEdge : Double := .nearest (2 / 100)
  minEdge : Double := .nearest (5 / 1000)
  maxEdge : Double := .nearest (8 / 100)
  winDelta : Double := .nearest (-1 / 1000)
  lossDelta : Double := .nearest (3 / 1000)
  decayTowardInitial : Double := .nearest (1 / 1000)
  minOutcomesBeforeAdapt : Nat := 5

/-- The default configuration in exact numbers. -/
def AdaptiveEdgeConfig.exact : AdaptiveEdgeConfig where
  initialEdge := 2 / 100
  minEdge := 5 / 1000
  maxEdge := 8 / 100
  winDelta := -1 / 1000
  lossDelta := 3 / 1000
  decayTowardInitial := 1 / 1000

/-- `noted` is no field of the class: the outcomes of all calls of `noteOutcome`. -/
structure AdaptiveEdge where
  config : AdaptiveEdgeConfig := {}
  edge : Double := config.initialEdge
  outcomes : Nat := 0
  wins : Nat := 0
  losses : Nat := 0
  noted : List Outcome := []

namespace AdaptiveEdge

/-- `std::clamp`. -/
def clamp (v low high : Double) : Double := if v < low then low else if high < v then high else v

/-- The mild pull toward the initial edge. -/
def pull (config : AdaptiveEdgeConfig) (edge : Double) : Double :=
  if config.initialEdge < edge then .nearest (edge - config.decayTowardInitial)
  else if edge < config.initialEdge then .nearest (edge + config.decayTowardInitial)
  else edge

def noteOutcome (e : AdaptiveEdge) (o : Outcome) : AdaptiveEdge :=
  if o.result ≠ .win ∧ o.result ≠ .loss then { e with noted := e.noted ++ [o] }
  else
    let win : Bool := o.isWin || o.result = .win
    let moved := Double.nearest (e.edge + if win then e.config.winDelta else e.config.lossDelta)
    { e with
      edge := clamp (pull e.config moved) e.config.minEdge e.config.maxEdge
      outcomes := e.outcomes + 1
      wins := if win then e.wins + 1 else e.wins
      losses := if win then e.losses else e.losses + 1
      noted := e.noted ++ [o] }

/-- `pull` when the results of the operations are rounded by `round`. -/
def pullWith (round : Rat → Double) (config : AdaptiveEdgeConfig) (edge : Double) : Double :=
  if config.initialEdge < edge then round (edge - config.decayTowardInitial)
  else if edge < config.initialEdge then round (edge + config.decayTowardInitial)
  else edge

/-- `noteOutcome` when the results of the operations are rounded by `round`. -/
def noteOutcomeWith (round : Rat → Double) (e : AdaptiveEdge) (o : Outcome) : AdaptiveEdge :=
  if o.result ≠ .win ∧ o.result ≠ .loss then { e with noted := e.noted ++ [o] }
  else
    let win : Bool := o.isWin || o.result = .win
    let moved := round (e.edge + if win then e.config.winDelta else e.config.lossDelta)
    { e with
      edge := clamp (pullWith round e.config moved) e.config.minEdge e.config.maxEdge
      outcomes := e.outcomes + 1
      wins := if win then e.wins + 1 else e.wins
      losses := if win then e.losses else e.losses + 1
      noted := e.noted ++ [o] }

theorem noteOutcomeWith_nearest : noteOutcomeWith .nearest = noteOutcome := rfl

/-- The edge that `applyTo` writes into a strategy's `qualityEdge`. -/
def qualityEdge (e : AdaptiveEdge) (qualityEdge : Double) : Double :=
  if e.config.minOutcomesBeforeAdapt ≤ e.outcomes then e.edge else qualityEdge

/-- Overlays the edge onto the configuration of a strategy, once enough outcomes were noted. -/
def applyTo (e : AdaptiveEdge) (cfg : StrategyConfig) : StrategyConfig :=
  { cfg with qualityEdge := e.qualityEdge cfg.qualityEdge }

theorem noteOutcome_noted (e : AdaptiveEdge) (o : Outcome) : (e.noteOutcome o).noted = e.noted ++ [o] := by
  unfold noteOutcome
  split <;> rfl

end AdaptiveEdge
end CrashCore
