import CrashCore.PredictionsEngine.IncrementalState
import CrashCore.PredictionsEngine.MlRuntime

/-! The engine from features to a signal (`pe/engine/prediction_engine.hpp`, `pe/models/model_registry.hpp`,
`pe/models/ml_predictive_model.hpp`, `src/ml/ml_fusion.cpp`, `pe/signals/signal.hpp`, `pe/signals/validate.hpp`). The
features, the regime and the statistical models are any functions of what they are given; the id and the times of a
prediction come from outside. -/

namespace CrashCore.Pe
open Binary64 (Libm)
open Double (nearest)

/-! ### Outputs -/

structure ModelIdentity where
  name : String
  version : String
  featureVersion : String
  targetVersion : String

/-- Of `Regime` what is read of it here. -/
structure Regime where
  id : String
  anomalyState : Bool
  confidence : Binary64

structure PredictionOutput where
  predictionId : String
  model : ModelIdentity
  target : Double
  score : Binary64
  probability : Binary64
  confidence : Binary64
  regime : Option Regime
  dataQuality : Binary64
  featureSummary : String → Option Binary64
  reasoning : List String
  timestamp : String
  expiresAt : String

inductive FeaturePath
  | v2Incremental
  | v1Fallback
  | acieState
deriving DecidableEq

structure PredictionSignal where
  predictionId : String
  timestamp : String
  modelVersion : String
  featureVersion : String
  featurePath : FeaturePath
  targetRoundId : String
  target : Double
  score : Binary64
  probability : Binary64
  confidence : Binary64
  regimeId : Option String
  dataQuality : Binary64
  reasoning : List String
  expiresAt : String
  featureSummary : String → Option Binary64

inductive PipelineStage
  | featureGeneration
  | regimeDetection
  | modelResolution
  | modelPrediction
  | predictionOutputValidation
  | signalConversion
  | signalValidation
deriving DecidableEq

structure PipelineStageError where
  stage : PipelineStage
  what : String
deriving DecidableEq

/-- Not a number from 0 to 1. -/
def outOfRange (p : Binary64) : Bool := !p.isFinite || p.lt (.finite 0) || (Binary64.finite 1).lt p

def validatePredictionOutput (out : PredictionOutput) : Except PipelineStageError Unit :=
  if out.predictionId = "" then .error ⟨.predictionOutputValidation, "missing predictionId"⟩
  else if outOfRange out.probability then .error ⟨.predictionOutputValidation, "probability out of [0,1]"⟩
  else if outOfRange out.confidence then .error ⟨.predictionOutputValidation, "confidence out of [0,1]"⟩
  else if out.model.name = "" ∨ out.model.version = "" then
    .error ⟨.predictionOutputValidation, "model identity incomplete"⟩
  else .ok ()

def toSignal (out : PredictionOutput) (featurePath : FeaturePath) (targetRoundId : String) : PredictionSignal where
  predictionId := out.predictionId
  timestamp := out.timestamp
  modelVersion := out.model.name ++ "@" ++ out.model.version
  featureVersion := out.model.featureVersion
  featurePath
  targetRoundId
  target := out.target
  score := out.score
  probability := out.probability
  confidence := out.confidence
  regimeId := out.regime.map (·.id)
  dataQuality := out.dataQuality
  reasoning := out.reasoning
  expiresAt := out.expiresAt
  featureSummary := out.featureSummary

def validateSignal (s : PredictionSignal) : Except PipelineStageError Unit :=
  if s.predictionId = "" then .error ⟨.signalValidation, "missing predictionId"⟩
  else if s.targetRoundId = "" then .error ⟨.signalValidation, "missing targetRoundId"⟩
  else if outOfRange s.probability then .error ⟨.signalValidation, "probability out of range"⟩
  else if s.featureVersion = "" then .error ⟨.signalValidation, "missing featureVersion"⟩
  else .ok ()

/-! ### Fusion -/

structure FusionInput where
  statistical_probability : Binary64
  ml_probability : Binary64
  statistical_confidence : Binary64
  ml_confidence : Binary64
  regime_confidence : Binary64

structure FusionResult where
  probability : Binary64
  confidence : Binary64

structure MLFusion where
  w0 : Binary64
  w_stat : Binary64
  w_ml : Binary64
  w_disagree : Binary64
  w_regime : Binary64

namespace MLFusion

def fixedWeight (ml_weight : Binary64) : MLFusion :=
  let w := (Binary64.finite 1).min ((Binary64.finite 0).max ml_weight)
  ⟨.finite 0, (Binary64.finite 1).sub w, w, .finite 0, .finite 0⟩

/-- `w0`, `w_disagree` and `w_regime` are 0, and the other two make 1. -/
def isLinear (f : MLFusion) : Bool :=
  let tiny := Binary64.finite (nearest (10 ^ (-12 : Int)))
  f.w0.abs.lt tiny && f.w_disagree.abs.lt tiny && f.w_regime.abs.lt tiny &&
    ((f.w_stat.add f.w_ml).sub (.finite 1)).abs.lt (.finite (nearest (10 ^ (-9 : Int))))

def fuse (libm : Libm) (f : MLFusion) (i : FusionInput) : FusionResult :=
  let disagree := (i.statistical_probability.sub i.ml_probability).abs
  let linear := (f.w_stat.mul i.statistical_probability).add (f.w_ml.mul i.ml_probability)
  let logit := (((f.w0.add (f.w_stat.mul i.statistical_probability)).add (f.w_ml.mul i.ml_probability)).add
    (f.w_disagree.mul disagree)).add (f.w_regime.mul i.regime_confidence)
  let p := if f.isLinear then linear else MLLogisticModel.sigmoid libm logit
  { probability := (Binary64.finite (nearest (99 / 100))).min ((Binary64.finite (nearest (1 / 100))).max p)
    confidence := (Binary64.finite (nearest (95 / 100))).min
      (((Binary64.finite (1 / 2)).mul i.statistical_confidence).add ((Binary64.finite (1 / 2)).mul i.ml_confidence)) }

end MLFusion

/-! ### Models -/

/-- What is new with every prediction. -/
structure Stamp where
  predictionId : String
  timestamp : String
  expiresAt : String

/-- The adapter of the runtime. Its statistical base may be set from outside. -/
structure MLPredictiveModel where
  identity : ModelIdentity := ⟨"ml-predictive", "1.0.0", "fv-2.1.0", "targets-v1"⟩
  ml_weight : Binary64 := .finite 0
  stat_p : Binary64 := .finite 0
  stat_conf : Binary64 := .finite 0

def EMPIRICAL_BASE_1_30 : Double := nearest (1 / T13)

namespace MLPredictiveModel

def base (m : MLPredictiveModel) (features : FeatureVector) (target : Double) : Binary64 :=
  let p := if m.stat_p.le (.finite 0) then (features.values "ewma_hit_13").getD (.finite EMPIRICAL_BASE_1_30) else m.stat_p
  let p := if 2 ≤ target then p.mul (.finite (nearest (55 / 100))) else p
  let p := if 5 ≤ target then p.mul (.finite (nearest (4 / 10))) else p
  (Binary64.finite (nearest (99 / 100))).min ((Binary64.finite (nearest (1 / 100))).max p)

def predict (libm : Libm) (m : MLPredictiveModel) (runtime : Option MLRuntime) (features : FeatureVector) (target : Double)
    (regime : Option Regime) (stamp : Stamp) : PredictionOutput × Option MLRuntime :=
  let base_p := m.base features target
  let conf := if (Binary64.finite 0).lt m.stat_conf then m.stat_conf else .finite (1 / 2)
  let attempt := runtime.map (·.predict libm features)
  let ml := (attempt.bind (·.1)).filter (·.valid)
  let fusion_enabled := runtime.any (·.cfg.fusion_enabled)
  let fused := (MLFusion.fixedWeight m.ml_weight).fuse libm {
    statistical_probability := base_p
    ml_probability := (ml.map (·.probability)).getD (.finite 0)
    statistical_confidence := conf
    ml_confidence := .finite (nearest (55 / 100))
    regime_confidence := (regime.map (·.confidence)).getD (.finite (1 / 2)) }
  let (final_p, conf, reasoning) :=
    match ml with
    | some ml =>
      if fusion_enabled && (Binary64.finite 0).lt m.ml_weight then
        (fused.probability, fused.confidence,
          ["ml-predictive-model", "fusion ml_weight=" ++ m.ml_weight.toText, "ml_p=" ++ ml.probability.toText])
      else if m.ml_weight.le (.finite 0) then
        (base_p, conf, ["ml-predictive-model", "shadow ml_p=" ++ ml.probability.toText])
      else (base_p, conf, ["ml-predictive-model", "ml unavailable — statistical only"])
    | none => (base_p, conf, ["ml-predictive-model", "ml unavailable — statistical only"])
  ({  predictionId := stamp.predictionId
      model := m.identity
      target
      score := final_p
      probability := final_p
      confidence := conf
      regime
      dataQuality := features.dataQualityScore
      featureSummary := fun key =>
        if key = "stat_p" then some base_p
        else if key = "final_p" then some final_p
        else if key = "ml_weight" then some m.ml_weight
        else none
      reasoning
      timestamp := stamp.timestamp
      expiresAt := stamp.expiresAt },
    attempt.map (·.2))

end MLPredictiveModel

inductive PredictiveModel
  | statistical (identity : ModelIdentity)
      (predict : FeatureVector → Double → Option Regime → Stamp → Except String PredictionOutput)
  | ml (model : MLPredictiveModel)

namespace PredictiveModel

def identity : PredictiveModel → ModelIdentity
  | statistical identity _ => identity
  | ml model => model.identity

def predict (libm : Libm) (model : PredictiveModel) (runtime : Option MLRuntime) (features : FeatureVector)
    (target : Double) (regime : Option Regime) (stamp : Stamp) : Except String PredictionOutput × Option MLRuntime :=
  match model with
  | statistical _ predict => (predict features target regime stamp, runtime)
  | ml model =>
    let (out, runtime) := model.predict libm runtime features target regime stamp
    (.ok out, runtime)

end PredictiveModel

/-- The models by their keys, in the order in which the table is walked, and the runtime where there is one. -/
structure ModelRegistry where
  models : List (String × PredictiveModel)
  defaultKey : String
  ml_runtime : Option MLRuntime

namespace ModelRegistry

def keyOf (id : ModelIdentity) : String := id.name ++ "@" ++ id.version

/-- Without a version the last model of the name that the walk finds. -/
def get (r : ModelRegistry) (name : String) (version : String := "") : Option PredictiveModel :=
  if version ≠ "" then (r.models.find? (·.1 = name ++ "@" ++ version)).map (·.2)
  else ((r.models.filter fun m => (name ++ "@").toList.isPrefixOf m.1.toList).getLast?).map (·.2)

def getDefault (r : ModelRegistry) : Option PredictiveModel := (r.models.find? (·.1 = r.defaultKey)).map (·.2)

end ModelRegistry

/-! ### The engine -/

structure PredictRequest where
  targetRoundId : String
  target : Double := T13
  modelName : Option String := none
  modelVersion : Option String := none
  recentCrashPoints : List Double := []

/-- Without the time that was taken. -/
structure PredictResult where
  signal : PredictionSignal
  output : PredictionOutput
  features : FeatureVector
  regime : Regime
  lifecycle : EngineLifecycleState

/-- The first two stages. Some features are of the time of day. -/
structure Stages where
  compute : IncrementalStateEngine → String → TimestampMs → Except String FeatureVector
  detect : List Double → Except String Regime

structure PredictionEngine where
  state : IncrementalStateEngine := {}
  models : ModelRegistry

namespace PredictionEngine

def observe (e : PredictionEngine) (crashPoint : Option Double) (beganAtMs : Option TimestampMs) (now : TimestampMs) :
    PredictionEngine :=
  let state := beganAtMs.elim e.state e.state.recordBeganAt
  { e with state := state.update crashPoint now }

def resolve (e : PredictionEngine) (req : PredictRequest) : Except PipelineStageError PredictiveModel :=
  match req.modelName with
  | some name =>
    (e.models.get name (req.modelVersion.getD "")).elim (.error ⟨.modelResolution, "model not found: " ++ name⟩) .ok
  | none => e.models.getDefault.elim (.error ⟨.modelResolution, "No default model registered"⟩) .ok

/-- The stages 1 to 3. -/
def prepare (stages : Stages) (e : PredictionEngine) (req : PredictRequest) (featuresAt : TimestampMs) :
    Except PipelineStageError (FeatureVector × Regime × PredictiveModel) := do
  let features ← (stages.compute e.state req.targetRoundId featuresAt).mapError (⟨.featureGeneration, ·⟩)
  let cps := if req.recentCrashPoints = [] then e.state.getLagArray else req.recentCrashPoints
  let regime ← (stages.detect cps).mapError (⟨.regimeDetection, ·⟩)
  let model ← e.resolve req
  return (features, regime, model)

/-- `rt->config().ml_weight > 0.0 && rt->config().fusion_enabled`. -/
def fuses (cfg : MLModelConfig) : Bool := (Binary64.finite 0).lt cfg.ml_weight && cfg.fusion_enabled

/-- The stages 4b and 4c. -/
def fusion (libm : Libm) (rt : MLRuntime) (already_ml : Bool) (features : FeatureVector) (regime : Regime)
    (out : PredictionOutput) : PredictionOutput × MLRuntime :=
  if rt.state = .live && rt.cfg.enabled && !already_ml &&
      (rt.cfg.fusion_enabled || (Binary64.finite 0).lt rt.cfg.ml_weight) then
    let (ml, after) := rt.predict libm features
    match ml.filter (·.valid) with
    | none => (out, after)
    | some ml =>
      if fuses rt.cfg then
        let fused := (MLFusion.fixedWeight rt.cfg.ml_weight).fuse libm {
          statistical_probability := out.probability
          ml_probability := ml.probability
          statistical_confidence := out.confidence
          ml_confidence := .finite (nearest (55 / 100))
          regime_confidence := regime.confidence }
        ({ out with
            probability := fused.probability
            score := fused.probability
            confidence := fused.confidence
            reasoning := out.reasoning ++ ["engine_fusion ml_weight=" ++ rt.cfg.ml_weight.toText]
            featureSummary := Function.update out.featureSummary "ml_p" (some ml.probability) }, after)
      else
        ({ out with featureSummary := Function.update out.featureSummary "ml_p_shadow" (some ml.probability) }, after)
  else (out, rt)

/-- The stages 5 to 7. -/
def finish (req : PredictRequest) (features : FeatureVector) (regime : Regime) (lifecycle : EngineLifecycleState)
    (out : PredictionOutput) : Except PipelineStageError PredictResult := do
  validatePredictionOutput out
  let signal := toSignal out .v2Incremental req.targetRoundId
  validateSignal signal
  return { signal, output := out, features, regime, lifecycle }

def setRuntime (e : PredictionEngine) (rt : Option MLRuntime) : PredictionEngine :=
  { e with models := { e.models with ml_runtime := rt } }

/-- The clock is read for the lifecycle first, and again for the features. -/
def predict (libm : Libm) (stages : Stages) (e : PredictionEngine) (req : PredictRequest) (stamp : Stamp)
    (now featuresAt : TimestampMs) : Except PipelineStageError PredictResult × PredictionEngine :=
  match e.prepare stages req featuresAt with
  | .error err => (.error err, e)
  | .ok (features, regime, model) =>
    match model.predict libm e.models.ml_runtime features req.target (some regime) stamp with
    | (.error what, rt) => (.error ⟨.modelPrediction, what⟩, e.setRuntime rt)
    | (.ok out, rt) =>
      let already_ml : Bool := model.identity.name = "ml-predictive"
      let fused := rt.map fun rt => fusion libm rt already_ml features regime out
      (finish req features regime (e.state.getLifecycleState now) ((fused.map (·.1)).getD out),
        e.setRuntime (fused.map (·.2)))

/-! ### Calls -/

/-- What is done to an engine, and through `mlRuntime()` to its runtime. -/
inductive Call
  | observe (crashPoint : Option Double) (beganAtMs : Option TimestampMs) (now : TimestampMs)
  | predict (req : PredictRequest) (stamp : Stamp) (now featuresAt : TimestampMs)
  | runtime (c : MLRuntime.Call)

abbrev Answer := Except PipelineStageError PredictResult

def call (host : Host) (stages : Stages) (e : PredictionEngine) : Call → List Answer × PredictionEngine
  | .observe crashPoint beganAtMs now => ([], e.observe crashPoint beganAtMs now)
  | .predict req stamp now featuresAt =>
    let (answer, e) := e.predict host.libm stages req stamp now featuresAt
    ([answer], e)
  | .runtime c => ([], e.setRuntime (e.models.ml_runtime.map (·.call host c)))

/-- The answers to the predictions among the calls. -/
def answers (host : Host) (stages : Stages) : PredictionEngine → List Call → List Answer
  | _, [] => []
  | e, c :: calls =>
    let (answers₁, e) := e.call host stages c
    answers₁ ++ answers host stages e calls

end PredictionEngine
end CrashCore.Pe
