import CrashCore.PredictionsEngine.ModelLoader

/-! The runtime of the logistic model: what it loads, how it infers, and when it gives up (`pe/ml/ml_runtime.hpp`,
`src/ml/ml_runtime.cpp`, `src/ml/ml_predictor.cpp`, `src/ml/ml_health.cpp`, `src/ml/ml_preprocessor.cpp`,
`src/ml/ml_normalizer.cpp`, `src/ml/ml_inference.cpp`, `src/ml/ml_calibrator.cpp`). The times that are measured on the way
are left out. -/

namespace CrashCore.Pe
open Binary64 (Libm)

/-- What the computer decides: its C library, and with it the bits of `std::log(0.65 / 0.35)`. -/
structure Host where
  libm : Libm
  priorBits : UInt64

/-- Of `FeatureVector` what the models read. -/
structure FeatureVector where
  roundId : String := ""
  values : String → Option Binary64
  dataQualityScore : Binary64 := .finite 0

/-! ### Health -/

structure MLHealth where
  inference_count : Nat := 0
  error_count : Nat := 0
  nan_count : Nat := 0
  mismatch_count : Nat := 0

namespace MLHealth

def recordSuccess (h : MLHealth) : MLHealth := { h with inference_count := h.inference_count + 1 }

def recordNaN (h : MLHealth) : MLHealth :=
  { h with
    nan_count := h.nan_count + 1
    error_count := h.error_count + 1
    inference_count := h.inference_count + 1 }

def recordFeatureMismatch (h : MLHealth) : MLHealth :=
  { h with
    mismatch_count := h.mismatch_count + 1
    error_count := h.error_count + 1
    inference_count := h.inference_count + 1 }

def shouldDegrade (h : MLHealth) (max_error_rate : Double := .nearest (5 / 100)) : Bool :=
  if h.inference_count < 50 then false
  else max_error_rate < .nearest (Double.nearest h.error_count / Double.nearest h.inference_count)

end MLHealth

/-! ### From features to a probability -/

/-- The features in the order of the model. A feature that is missing is zero. -/
def preprocess (features : FeatureVector) : Option (List Binary64) :=
  if MAX_ML_FEATURES < mlFeatureOrder.length then none
  else mlFeatureOrder.mapM fun name =>
    let v := (features.values name).getD (.finite 0)
    if v.isFinite then some v else none

def MLNormalizer.transform (n : MLNormalizer) (input : List Binary64) : List Binary64 :=
  (((n.mean.zip n.scale).zip input).map fun p => (p.2.sub (.ofBits p.1.1)).div (.ofBits p.1.2)) ++
    input.drop n.mean.length

/-- `MLInference::run`. -/
def MLInference.run (libm : Libm) (model : Option MLLogisticModel) (features : List Binary64) : MLInferenceResult :=
  match model with
  | none => {}
  | some model =>
    if features.length = 0 then {}
    else if features.length ≠ model.featureCount then {}
    else model.predict libm features

namespace MLCalibrator

/-- The steps of the loop, with the last break and its value. -/
def interpolate (p : Binary64) (x₀ y₀ : Binary64) : List (UInt64 × UInt64) → Binary64
  | [] => p
  | (x, y) :: rest =>
    let x₁ := Binary64.ofBits x
    let y₁ := Binary64.ofBits y
    if p.le x₁ then
      let t := (p.sub x₀).div ((x₁.sub x₀).add (.finite (.nearest (10 ^ (-15 : Int)))))
      y₀.add (t.mul (y₁.sub y₀))
    else interpolate p x₁ y₁ rest

def calibrate (libm : Libm) (cal : MLCalibrator) (raw_probability : Binary64) : Binary64 :=
  if !raw_probability.isFinite then .finite (1 / 2)
  else
    let p := (Binary64.finite (.nearest (999 / 1000))).min ((Binary64.finite (.nearest (1 / 1000))).max raw_probability)
    match cal with
    | platt a b =>
      let logit := libm.log (p.div ((Binary64.finite 1).sub p))
      let z := ((Binary64.ofBits a).mul logit).add (.ofBits b)
      (Binary64.finite (.nearest (99 / 100))).min
        ((Binary64.finite (.nearest (1 / 100))).max (MLLogisticModel.sigmoid libm z))
    | isotonic x y =>
      if x.length ≠ y.length then p
      else
        match x.zip y with
        | [] => p
        | (x₀, y₀) :: rest =>
          if p.le (.ofBits x₀) then .ofBits y₀
          else if ((rest.getLastD (x₀, y₀)).1 |> Binary64.ofBits).le p then .ofBits (rest.getLastD (x₀, y₀)).2
          else interpolate p (.ofBits x₀) (.ofBits y₀) rest

end MLCalibrator

/-! ### The runtime -/

inductive MLRuntimeState
  | loading
  | validating
  | warming
  | live
  | degraded
  | failed
deriving DecidableEq

structure MLModelConfig where
  enabled : Bool := false
  expected_features : Nat := 0
  minimum_probability : Binary64 := .finite 0
  maximum_probability : Binary64 := .finite 1
  calibration_enabled : Bool := true
  fusion_enabled : Bool := true
  ml_weight : Binary64 := .finite 0
  model_path : String := ""
  schema_path : String := ""
  metadata_path : String := ""
  checksum_path : String := ""

structure MLRuntime where
  state : MLRuntimeState := .failed
  cfg : MLModelConfig := {}
  model : Option MLLogisticModel := none
  normalizer : Option MLNormalizer := none
  calibrator : Option MLCalibrator := none
  health : MLHealth := {}

/-- The weights are the bits of `1.2`, `0.4`, `0.5` and `-0.2`. -/
def makeDefaultLogisticModel (host : Host) (feature_count : Nat) : LoadedModel :=
  let feature_count := if feature_count = 0 then mlFeatureOrder.length else feature_count
  let weight (name : String) : UInt64 :=
    if name = "ewma_hit_13" then 0x3ff3333333333333
    else if name = "markov_p_up" then 0x3fd999999999999a
    else if name = "short_hit_13" then 0x3fe0000000000000
    else if name = "entropy_binary_13" then 0xbfc999999999999a
    else 0
  let weights := (mlFeatureOrder.map weight).take feature_count ++
    List.replicate (feature_count - mlFeatureOrder.length) 0
  let metadata : MLModelMetadata := {
    model_id := "logistic-default", version := "1.0.0", feature_count, feature_schema_hash := featureSchemaHash }
  { model := { metadata, weights, bias := host.priorBits }, calibrator := some (.platt oneBits 0) }

namespace MLRuntime

/-- The part of `loadFromConfig` that makes the model live, once it is there. -/
def install (libm : Libm) (rt : MLRuntime) (loaded : LoadedModel) : Bool × MLRuntime :=
  let rt := { rt with
    state := .warming
    model := some loaded.model
    normalizer := loaded.normalizer
    calibrator := loaded.calibrator }
  let zeros := List.replicate loaded.model.featureCount (.finite 0)
  if !(MLInference.run libm rt.model zeros).valid then (false, { rt with state := .failed, model := none })
  else (true, { rt with health := {}, state := .live })

def loadFromConfig (host : Host) (files : Files) (rt : MLRuntime) (cfg : MLModelConfig) : Bool × MLRuntime :=
  let rt := { rt with cfg, state := .loading }
  if !cfg.enabled then (false, { rt with state := .failed })
  else
    let rt := { rt with state := .validating }
    if cfg.model_path ≠ "" then
      match loadModelFromBinary host.libm files cfg.model_path cfg.checksum_path cfg.schema_path cfg.metadata_path with
      | none => (false, { rt with state := .failed })
      | some loaded => rt.install host.libm loaded
    else
      let expected := if 0 < cfg.expected_features then cfg.expected_features else mlFeatureOrder.length
      rt.install host.libm (makeDefaultLogisticModel host expected)

def loadDefault (host : Host) (files : Files) (rt : MLRuntime) : Bool × MLRuntime :=
  rt.loadFromConfig host files { enabled := true, expected_features := mlFeatureOrder.length }

def activeModel (rt : MLRuntime) : Option MLLogisticModel := if rt.state ≠ .live then none else rt.model

def markDegraded (rt : MLRuntime) : MLRuntime := if rt.state = .live then { rt with state := .degraded } else rt

def checkHealth (rt : MLRuntime) : MLRuntime := if rt.health.shouldDegrade then rt.markDegraded else rt

/-- `MLPredictor::predict` from the normalised features on. -/
def infer (libm : Libm) (rt : MLRuntime) (model : MLLogisticModel) (features : List Binary64) :
    Option MLInferenceResult × MLRuntime :=
  let result := MLInference.run libm (some model) features
  if !result.valid || !result.probability.isFinite then (none, { rt with health := rt.health.recordNaN }.checkHealth)
  else
    let calibrated :=
      if rt.cfg.calibration_enabled then
        (rt.calibrator.map fun cal => cal.calibrate libm result.probability).getD result.probability
      else result.probability
    let probability := rt.cfg.maximum_probability.min (rt.cfg.minimum_probability.max calibrated)
    (some { result with probability }, { rt with health := rt.health.recordSuccess })

/-- `MLPredictor::predict`. -/
def predict (libm : Libm) (rt : MLRuntime) (features : FeatureVector) : Option MLInferenceResult × MLRuntime :=
  if rt.state ≠ .live then (none, rt)
  else
    match rt.activeModel with
    | none => (none, rt)
    | some model =>
      match preprocess features with
      | none => (none, { rt with health := rt.health.recordFeatureMismatch }.checkHealth)
      | some values =>
        if values.length ≠ model.featureCount then
          (none, { rt with health := rt.health.recordFeatureMismatch }.checkHealth)
        else
          rt.infer libm model ((rt.normalizer.map (·.transform values)).getD values)

/-! ### Calls -/

/-- What is done to a runtime. A load finds these files. -/
inductive Call
  | loadFromConfig (files : Files) (cfg : MLModelConfig)
  | loadDefault (files : Files)
  | predict (features : FeatureVector)
  | checkHealth
  | markDegraded

def call (host : Host) (rt : MLRuntime) : Call → MLRuntime
  | .loadFromConfig files cfg => (rt.loadFromConfig host files cfg).2
  | .loadDefault files => (rt.loadDefault host files).2
  | .predict features => (rt.predict host.libm features).2
  | .checkHealth => rt.checkHealth
  | .markDegraded => rt.markDegraded

end MLRuntime
end CrashCore.Pe
