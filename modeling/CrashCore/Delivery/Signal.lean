import CrashCore.Common.Types

/-! From a response to the signal that announces it (`prediction_interface/prediction_response.hpp`,
`prediction_interface/prediction_event.hpp`, `validation/outcome.hpp`, `delivery/signal.hpp`). -/

namespace CrashCore

def isActionable (r : PredictionResponse) : Prop := r.valid = true ∧ r.decision = .enter ∧ r.confidence > 0

instance (r : PredictionResponse) : Decidable (isActionable r) := inferInstanceAs (Decidable (_ ∧ _))

def fromResponse (resp : PredictionResponse) (gameId : GameId) (entryMult : Double) (now : TimestampMs) :
    PredictionEvent where
  predictionId := resp.predictionId
  targetRoundId := resp.targetRoundId
  gameId := gameId
  decision := resp.decision
  confidence := resp.confidence
  probability := resp.probability
  entryMult := entryMult
  targetMult := resp.targetMult
  createdAtMs := if resp.responseTimeMs ≠ 0 then resp.responseTimeMs else now
  correlationId := resp.correlationId
  modelVersion := resp.modelVersion

/-- `std::fixed << std::setprecision(2)`. -/
def fixed2 (d : Double) : String :=
  let n := (|d| * 100).roundTiesToEven.toNat
  let digits := (if n % 100 < 10 then "0" else "") ++ toString (n % 100)
  (if d < 0 then "-" else "") ++ toString (n / 100) ++ "." ++ digits

def signalFromPrediction (ev : PredictionEvent) (now : TimestampMs) : Signal where
  kind := .prediction
  predictionId := ev.predictionId
  roundId := ev.targetRoundId
  correlationId := ev.correlationId
  createdAtMs := now
  urgent := ev.decision = .enter
  text :=
    if ev.decision = .enter then
      "ENTER " ++ ev.targetRoundId ++ " target@" ++ fixed2 ev.targetMult ++ " conf=" ++ fixed2 ev.confidence
    else "SKIP " ++ ev.targetRoundId

def outcomeName : PredictionOutcome → String
  | .pending => "pending"
  | .win => "win"
  | .loss => "loss"
  | .void => "void"
  | .stale => "stale"
  | .duplicate => "duplicate"

def signalFromOutcome (o : Outcome) (now : TimestampMs) : Signal where
  kind := .outcome
  predictionId := o.predictionId
  roundId := o.roundId
  createdAtMs := now
  text := outcomeName o.result ++ " " ++ o.roundId ++ " actual=" ++ fixed2 o.actualMult ++ " target=" ++
    fixed2 o.targetMult

end CrashCore
