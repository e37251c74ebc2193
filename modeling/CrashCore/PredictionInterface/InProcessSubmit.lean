import CrashCore.Library.Run
import CrashCore.Prediction.AdaptiveEdge
import CrashCore.PredictionInterface.PredictionAttempt
import CrashCore.PredictionInterface.PredictionClient

/-! How a request is answered (`prediction_interface/in_process_prediction_client.hpp`, `submit`). The engine is a
function of what it has observed. Of its results only what the client reads is kept; as in the strategy, arithmetic is
exact. -/

namespace CrashCore

/-! ### The engine -/

structure PredictRequest where
  targetRoundId : RoundId
  target : Double := 13 / 10

structure PredictionSignal where
  modelVersion : String := ""
  probability : Double := 0
  confidence : Double := 0

structure PredictionOutput where
  predictionId : String := ""
  modelName : String := ""
  target : Double := 13 / 10

structure PredictResult where
  signal : PredictionSignal := {}
  output : PredictionOutput := {}

/-- What the client catches, with the text that it reports. -/
inductive EngineFailure
  | pipelineStage (stage : String)
  | exception (what : String)

def EngineFailure.text : EngineFailure → String
  | .pipelineStage stage => stage
  | .exception what => what

abbrev PredictionEngine := List Sample → PredictRequest → Except EngineFailure PredictResult

/-- The target of a result is the one that was asked for. -/
def PredictionEngine.Echoes (engine : PredictionEngine) : Prop :=
  ∀ samples req result, engine samples req = .ok result → result.output.target = req.target

/-! ### The gates -/

/-- The fair probability plus the edge, and the confidence, must be reached. The `isfinite` branches have no counterpart
    in exact arithmetic. -/
def decisionFromSignal (sig : PredictionSignal) (minConf targetMult qualityEdge : Double) : PredictionDecision :=
  if sig.probability ≤ 0 ∧ sig.confidence ≤ 0 then .skip
  else
    let targetMult := if ¬1 < targetMult then 13 / 10 else targetMult
    let qualityEdge := if ¬0 ≤ qualityEdge then 2 / 100 else qualityEdge
    let fair := 1 / targetMult
    let threshold := fair + qualityEdge
    if threshold ≤ sig.probability ∧ minConf ≤ sig.confidence then .enter else .skip

/-- `InProcessPredictionClient::Options`. -/
structure ClientOptions where
  minConfidence : Double := 55 / 100
  defaultTarget : Double := 13 / 10
  qualityEdge : Double := 2 / 100
  reducedEdge : Double := 5 / 1000
  warmMinSamples : Nat := 20
  strategyMode : StrategyMode := .quality

namespace ClientOptions

/-- The edge in force: that of the adaptive edge, when one is attached. -/
def edge (opt : ClientOptions) (adaptive : Option AdaptiveEdge) : Double :=
  match adaptive with
  | some e => e.edge
  | none => opt.qualityEdge

def strategyConfig (opt : ClientOptions) (adaptive : Option AdaptiveEdge) : StrategyConfig where
  mode := opt.strategyMode
  defaultTarget := opt.defaultTarget
  qualityEdge := opt.edge adaptive
  reducedEdge := opt.reducedEdge
  minConfidence := opt.minConfidence
  warmMinSamples := opt.warmMinSamples

def strategyInput (opt : ClientOptions) (sig : PredictionSignal) (observed : Nat) : StrategyInput where
  probability := sig.probability
  confidence := sig.confidence
  targetMult := opt.defaultTarget
  samplesSeen := observed

/-- The strategy decides, and the older gate may turn its entry into a skip. -/
def decision (opt : ClientOptions) (adaptive : Option AdaptiveEdge) (sig : PredictionSignal) (observed : Nat) :
    PredictionDecision :=
  let scfg := opt.strategyConfig adaptive
  let sres := evaluateStrategy (opt.strategyInput sig observed) scfg
  if sres.decision = .enter then
    if decisionFromSignal sig opt.minConfidence opt.defaultTarget scfg.qualityEdge = .skip then .skip
    else sres.decision
  else sres.decision

end ClientOptions

/-! ### The client -/

structure SubmittingClient extends InProcessPredictionClient where
  options : ClientOptions := {}
  predicted : Nat := 0
  actionable : Nat := 0
  errors : Nat := 0
  submitted : Nat := 0
  pending : String → Option PredictionResponse := fun _ => none
  lastResponse : Option PredictionResponse := none

namespace SubmittingClient

/-- The question that is put to the engine. -/
def predictRequest (c : SubmittingClient) (req : PredictionRequest) : PredictRequest :=
  { targetRoundId := req.targetRoundId, target := c.options.defaultTarget }

/-- The engine is asked after the warm path. -/
def predict (c : SubmittingClient) (engine : PredictionEngine) (req : PredictionRequest) :
    Except EngineFailure PredictResult :=
  engine c.warmUp.samples (c.predictRequest req)

def response (c : SubmittingClient) (engine : PredictionEngine) (adaptive : Option AdaptiveEdge)
    (req : PredictionRequest) (now : TimestampMs) : PredictionResponse :=
  match c.predict engine req with
  | .ok pr =>
    { predictionId := if pr.output.predictionId = "" then "pe-" ++ req.correlationId else pr.output.predictionId
      targetRoundId := req.targetRoundId
      decision := c.options.decision adaptive pr.signal c.observed
      confidence := pr.signal.confidence
      probability := pr.signal.probability
      targetMult := pr.output.target
      responseTimeMs := now
      correlationId := req.correlationId
      modelVersion := if pr.signal.modelVersion = "" then pr.output.modelName else pr.signal.modelVersion
      valid := true }
  | .error failure =>
    { predictionId := "skip-" ++ req.correlationId
      targetRoundId := req.targetRoundId
      responseTimeMs := now
      correlationId := req.correlationId
      modelVersion := "pe-error:" ++ failure.text
      valid := true }

def submit (c : SubmittingClient) (engine : PredictionEngine) (adaptive : Option AdaptiveEdge)
    (req : PredictionRequest) (now : TimestampMs) : PredictionResponse × SubmittingClient :=
  let resp := c.response engine adaptive req now
  let failed := !(c.predict engine req).isOk
  (resp, { c with
    toInProcessPredictionClient := c.warmUp
    predicted := if failed then c.predicted else c.predicted + 1
    actionable := if resp.decision = .enter then c.actionable + 1 else c.actionable
    errors := if failed then c.errors + 1 else c.errors
    submitted := c.submitted + 1
    pending := Function.update c.pending req.correlationId (some resp)
    lastResponse := some resp })

/-- The calls that a client receives. -/
inductive Call
  | observeEnd (e : CrashEvent) (now : TimestampMs)
  | setOptions (opt : ClientOptions)
  | submit (engine : PredictionEngine) (adaptive : Option AdaptiveEdge) (req : PredictionRequest) (now : TimestampMs)

def call (c : SubmittingClient) : Call → SubmittingClient
  | .observeEnd e now => { c with toInProcessPredictionClient := c.observeEnd e now }
  | .setOptions options => { c with options }
  | .submit engine adaptive req now => (c.submit engine adaptive req now).2

/-- A client with some options after some calls. -/
def after (options : ClientOptions) (calls : List Call) : SubmittingClient := calls.foldl call { options }

/-- The call feeds a finished round to the engine. -/
def Observes : Call → Prop
  | .observeEnd e _ => e.IsValidEnd ∧ 0 < InProcessPredictionClient.point e
  | _ => False

instance : DecidablePred Observes
  | .observeEnd _ _ => inferInstanceAs (Decidable (_ ∧ _))
  | .setOptions _ => inferInstanceAs (Decidable False)
  | .submit _ _ _ _ => inferInstanceAs (Decidable False)

theorem observed_call (c : SubmittingClient) (call : Call) :
    (c.call call).observed = c.observed + if Observes call then 1 else 0 := by
  cases call with
  | observeEnd e now =>
    show (c.toInProcessPredictionClient.observeEnd e now).observed = _
    unfold InProcessPredictionClient.observeEnd Observes
    by_cases hvalid : e.IsValidEnd
    · by_cases hpoint : 0 < InProcessPredictionClient.point e <;> simp [hvalid, hpoint]
    · simp [hvalid]
  | setOptions options => rfl
  | submit engine adaptive req now => exact c.warmUp_observed

/-- The counter of the samples counts the finished rounds that were fed. -/
theorem observed_after (options : ClientOptions) (calls : List Call) :
    (after options calls).observed = (calls.filter Observes).length := by
  have hcount := Transition.foldl_count (fun c : SubmittingClient => c.observed) observed_call calls { options }
  rwa [Nat.zero_add] at hcount

end SubmittingClient
end CrashCore
