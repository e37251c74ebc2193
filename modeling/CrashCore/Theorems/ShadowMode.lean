import CrashCore.PredictionsEngine.PredictionEngine
import CrashCore.Theorems.MlHealth

/-! What the model may do to the predictions. In shadow it changes nothing but one entry of the summary, whatever happens
to the runtime; with a weight it may change the numbers, but it never makes a prediction fail. -/

namespace CrashCore.Pe
open Binary64 (Libm)
open Double (nearest)

/-! ### What is valid -/

theorem outOfRange_eq_false_iff {p : Binary64} : outOfRange p = false ↔ ∃ q, p = .finite q ∧ 0 ≤ q ∧ q ≤ 1 := by
  rcases p with _ | a | q
  · simp [outOfRange, Binary64.isFinite]
  · simp [outOfRange, Binary64.isFinite]
  · simp only [outOfRange, Binary64.isFinite, Binary64.lt, Binary64.le, Binary64.finite.injEq, Bool.not_true,
      Bool.false_or, Bool.or_eq_false_iff, Bool.and_eq_false_iff, decide_eq_false_iff_not, Bool.not_eq_false',
      decide_eq_true_eq, not_le]
    constructor
    · rintro ⟨hlow, hhigh⟩
      refine ⟨q, rfl, ?_, ?_⟩
      · rcases hlow with h | h <;> linarith
      · rcases hhigh with h | h <;> linarith
    · rintro ⟨q, rfl, hlow, hhigh⟩
      exact ⟨.inr hlow, .inr hhigh⟩

/-- Of an output all but the numbers and the texts about them. -/
structure SameBase (out out' : PredictionOutput) : Prop where
  predictionId : out.predictionId = out'.predictionId
  model : out.model = out'.model
  target : out.target = out'.target
  regime : out.regime = out'.regime
  dataQuality : out.dataQuality = out'.dataQuality
  timestamp : out.timestamp = out'.timestamp
  expiresAt : out.expiresAt = out'.expiresAt

/-- The numbers are the same, or others that pass. -/
structure Blended (out out' : PredictionOutput) : Prop where
  base : SameBase out out'
  probability : out.probability = out'.probability ∨
    ∃ q, out.probability = .finite q ∧ nearest (1 / 100) ≤ q ∧ q ≤ nearest (99 / 100)
  confidence : outOfRange out'.confidence = false → outOfRange out.confidence = false

theorem SameBase.refl (out : PredictionOutput) : SameBase out out := ⟨rfl, rfl, rfl, rfl, rfl, rfl, rfl⟩

theorem Blended.refl (out : PredictionOutput) : Blended out out := ⟨.refl out, .inl rfl, id⟩

theorem Blended.trans {out out₁ out' : PredictionOutput} (h : Blended out out₁) (h' : Blended out₁ out') :
    Blended out out' where
  base := ⟨h.base.predictionId.trans h'.base.predictionId, h.base.model.trans h'.base.model,
    h.base.target.trans h'.base.target, h.base.regime.trans h'.base.regime,
    h.base.dataQuality.trans h'.base.dataQuality, h.base.timestamp.trans h'.base.timestamp,
    h.base.expiresAt.trans h'.base.expiresAt⟩
  probability := by
    rcases h.probability with heq | hblend
    · rw [heq]
      exact h'.probability
    · exact .inr hblend
  confidence := h.confidence ∘ h'.confidence

/-! ### Fusion -/

theorem fuse_probability (libm : Libm) (f : MLFusion) (i : FusionInput) :
    ∃ q, (f.fuse libm i).probability = .finite q ∧ nearest (1 / 100) ≤ q ∧ q ≤ nearest (99 / 100) :=
  Binary64.min_max_eq (Double.nearest_mono (by norm_num)) _

theorem fuse_confidence (libm : Libm) (f : MLFusion) {i : FusionInput} {c : Double}
    (hml : i.ml_confidence = .finite (nearest (55 / 100))) (hstat : i.statistical_confidence = .finite c)
    (hlow : 0 ≤ c) (hhigh : c ≤ 1) : outOfRange (f.fuse libm i).confidence = false := by
  have hone : nearest (1 : Rat) = 1 := Double.nearest_one
  have hmlow : 0 ≤ nearest (55 / 100) := Double.nearest_nonneg (by norm_num)
  have hmhigh : nearest (55 / 100) ≤ 1 := hone ▸ Double.nearest_mono (by norm_num)
  have htop : 0 ≤ nearest (95 / 100) ∧ nearest (95 / 100) ≤ 1 :=
    ⟨Double.nearest_nonneg (by norm_num), hone ▸ Double.nearest_mono (by norm_num)⟩
  -- each half is at most a half when it is rounded
  have hhalf {x : Double} (hx : 0 ≤ x) (hle : x ≤ 1) : ∃ h, (Binary64.finite (1 / 2)).mul (.finite x) = .finite h ∧
      0 ≤ h ∧ h ≤ 1 := by
    have hprod := Binary64.ofRat_of_le_two (q := 1 / 2 * x) (by positivity) (by linarith)
    have hmono : nearest (1 / 2 * x) ≤ nearest 1 := Double.nearest_mono (by linarith)
    exact ⟨_, hprod.1, hprod.2.1, hmono.trans_eq hone⟩
  obtain ⟨h₁, heq₁, hlow₁, hhigh₁⟩ := hhalf hlow hhigh
  obtain ⟨h₂, heq₂, hlow₂, hhigh₂⟩ := hhalf hmlow hmhigh
  have hsum := Binary64.ofRat_of_le_two (q := h₁ + h₂) (by linarith) (by linarith)
  rw [outOfRange_eq_false_iff]
  refine ⟨min (nearest (95 / 100)) (nearest (h₁ + h₂)), ?_, le_min htop.1 hsum.2.1, (min_le_left _ _).trans htop.2⟩
  simp only [MLFusion.fuse, hml, hstat, heq₁, heq₂, Binary64.add, hsum.1, Binary64.min_finite]

namespace PredictionEngine
variable {host : Host} {libm : Libm} {stages : Stages} {rt : MLRuntime} {features : FeatureVector} {regime : Regime}
  {already_ml : Bool} {out out' : PredictionOutput}

theorem predict_cfg : (rt.predict libm features).2.cfg = rt.cfg := by
  have hhealth (rt : MLRuntime) : rt.checkHealth.cfg = rt.cfg := by
    unfold MLRuntime.checkHealth MLRuntime.markDegraded
    split <;> first | rfl | (split <;> rfl)
  unfold MLRuntime.predict MLRuntime.infer
  dsimp only
  repeat' split
  all_goals first | rfl | exact hhealth _

theorem fusion_cfg : (fusion libm rt already_ml features regime out).2.cfg = rt.cfg := by
  unfold fusion
  dsimp only
  repeat' split
  all_goals first | rfl | exact predict_cfg

/-- Without a weight the fusion only writes into the summary. -/
theorem fusion_of_quiet (libm : Libm) (hquiet : fuses rt.cfg = false) (already_ml : Bool) (features : FeatureVector)
    (regime : Regime) (out : PredictionOutput) :
    ∃ summary, (∀ key, key ≠ "ml_p_shadow" → summary key = out.featureSummary key) ∧
      (fusion libm rt already_ml features regime out).1 = { out with featureSummary := summary } := by
  unfold fusion
  dsimp only
  split
  · split
    · exact ⟨_, fun _ _ => rfl, rfl⟩
    · rw [hquiet]
      exact ⟨_, fun key hkey => Function.update_of_ne hkey _ _, rfl⟩
  · exact ⟨_, fun _ _ => rfl, rfl⟩

theorem fusion_blended : Blended (fusion libm rt already_ml features regime out).1 out := by
  unfold fusion
  dsimp only
  split
  swap
  · exact .refl out
  split
  · exact .refl out
  split
  · refine ⟨⟨rfl, rfl, rfl, rfl, rfl, rfl, rfl⟩, .inr (fuse_probability ..), fun hvalid => ?_⟩
    obtain ⟨c, hc, hlow, hhigh⟩ := outOfRange_eq_false_iff.mp hvalid
    exact fuse_confidence libm (.fixedWeight rt.cfg.ml_weight) rfl hc hlow hhigh
  · exact ⟨⟨rfl, rfl, rfl, rfl, rfl, rfl, rfl⟩, .inl rfl, id⟩

/-- The statistical models do not know of the runtime, and the adapter answers without it, too. -/
theorem model_blended (libm : Libm) (features : FeatureVector) (model : PredictiveModel) (runtime : Option MLRuntime) (target : Double) (regime : Option Regime)
    (stamp : Stamp) :
    (∃ what, (model.predict libm runtime features target regime stamp).1 = .error what ∧
      (model.predict libm none features target regime stamp).1 = .error what) ∨
    ∃ out out', (model.predict libm runtime features target regime stamp).1 = .ok out ∧
      (model.predict libm none features target regime stamp).1 = .ok out' ∧ Blended out out' := by
  cases model with
  | statistical identity predict =>
    simp only [PredictiveModel.predict]
    cases predict features target regime stamp with
    | error what => exact .inl ⟨what, rfl, rfl⟩
    | ok out => exact .inr ⟨out, out, rfl, rfl, .refl out⟩
  | ml model =>
    simp only [PredictiveModel.predict, MLPredictiveModel.predict, Option.map_none, Option.bind_none, Option.filter_none]
    refine .inr ⟨_, _, rfl, rfl, ?_⟩
    split
    · split
      · refine ⟨⟨rfl, rfl, rfl, rfl, rfl, rfl, rfl⟩, .inr (fuse_probability ..), fun hvalid => ?_⟩
        obtain ⟨c, hc, hlow, hhigh⟩ := outOfRange_eq_false_iff.mp hvalid
        exact fuse_confidence libm (.fixedWeight model.ml_weight) rfl hc hlow hhigh
      · split <;> exact ⟨⟨rfl, rfl, rfl, rfl, rfl, rfl, rfl⟩, .inl rfl, id⟩
    · exact ⟨⟨rfl, rfl, rfl, rfl, rfl, rfl, rfl⟩, .inl rfl, id⟩

/-! ### The last stages -/

theorem validatePredictionOutput_cases (out : PredictionOutput) :
    (validatePredictionOutput out = .ok () ∧ out.predictionId ≠ "" ∧ outOfRange out.probability = false ∧
      outOfRange out.confidence = false ∧ ¬(out.model.name = "" ∨ out.model.version = "")) ∨
    ∃ what, validatePredictionOutput out = .error ⟨.predictionOutputValidation, what⟩ := by
  unfold validatePredictionOutput
  by_cases hid : out.predictionId = ""
  · exact .inr ⟨_, if_pos hid⟩
  by_cases hprob : outOfRange out.probability = true
  · rw [if_neg hid, if_pos hprob]
    exact .inr ⟨_, rfl⟩
  by_cases hconf : outOfRange out.confidence = true
  · rw [if_neg hid, if_neg hprob, if_pos hconf]
    exact .inr ⟨_, rfl⟩
  rw [if_neg hid, if_neg hprob, if_neg hconf]
  by_cases hmodel : out.model.name = "" ∨ out.model.version = ""
  · rw [if_pos hmodel]
    exact .inr ⟨_, rfl⟩
  · rw [if_neg hmodel]
    exact .inl ⟨rfl, hid, Bool.eq_false_iff.mpr hprob, Bool.eq_false_iff.mpr hconf, hmodel⟩

theorem outOfRange_of_blended (h : Blended out out') (hvalid : outOfRange out'.probability = false) :
    outOfRange out.probability = false := by
  rcases h.probability with heq | ⟨q, hq, hlow, hhigh⟩
  · rw [heq, hvalid]
  · have hone : nearest (99 / 100) ≤ nearest 1 := Double.nearest_mono (by norm_num)
    have hzero : 0 ≤ nearest (1 / 100) := Double.nearest_nonneg (by norm_num)
    exact outOfRange_eq_false_iff.mpr ⟨q, hq, hzero.trans hlow, hhigh.trans (hone.trans_eq Double.nearest_one)⟩

theorem validate_of_blended (h : Blended out out') (hvalid : validatePredictionOutput out' = .ok ()) :
    validatePredictionOutput out = .ok () := by
  rcases validatePredictionOutput_cases out' with ⟨-, hid, hprob, hconf, hmodel⟩ | ⟨what, herr⟩
  · rw [validatePredictionOutput, h.base.predictionId, h.base.model, if_neg hid, outOfRange_of_blended h hprob, h.confidence hconf,
      if_neg hmodel]
    rfl
  · rw [herr] at hvalid
    cases hvalid

/-- A result as the signal and the numbers of another are. -/
structure Agrees (p p' : PredictResult) : Prop where
  output : Blended p.output p'.output
  signal : p.signal = toSignal p.output .v2Incremental p'.signal.targetRoundId
  features : p.features = p'.features
  regime : p.regime = p'.regime
  lifecycle : p.lifecycle = p'.lifecycle

/-- What succeeded succeeds still, and what failed fails the same way, unless it was for its numbers. -/
inductive Kept : Answer → Answer → Prop
  | ok {p p' : PredictResult} : Agrees p p' → Kept (.ok p) (.ok p')
  | error (err : PipelineStageError) : Kept (.error err) (.error err)
  | invalid (answer : Answer) (what : String) : Kept answer (.error ⟨.predictionOutputValidation, what⟩)

theorem finish_kept (h : Blended out out') (req : PredictRequest) (lifecycle : EngineLifecycleState) :
    Kept (finish req features regime lifecycle out) (finish req features regime lifecycle out') := by
  rcases validatePredictionOutput_cases out' with ⟨hvalid, -, hprob, -⟩ | ⟨what, herr⟩
  · have hsignal : validateSignal (toSignal out .v2Incremental req.targetRoundId) =
        validateSignal (toSignal out' .v2Incremental req.targetRoundId) := by
      simp only [validateSignal, toSignal, h.base.predictionId, h.base.model, outOfRange_of_blended h hprob, hprob,
        Bool.false_eq_true, if_false]
      rfl
    unfold finish
    rw [hvalid, validate_of_blended h hvalid]
    dsimp only [bind, Except.bind]
    rw [hsignal]
    rcases validateSignal (toSignal out' .v2Incremental req.targetRoundId) with err | _
    · exact .error err
    · exact .ok ⟨h, rfl, rfl, rfl, rfl⟩
  · have hfinish : finish req features regime lifecycle out' = .error ⟨.predictionOutputValidation, what⟩ := by
      rw [finish, herr]
      rfl
    rw [hfinish]
    exact .invalid _ what

/-! ### Runs -/

variable {e : PredictionEngine}

/-- The engine as it is built without the model. -/
abbrev withoutMl (e : PredictionEngine) : PredictionEngine := e.setRuntime none

theorem model_predict_none (libm : Libm) (features : FeatureVector) (model : PredictiveModel) (target : Double) (regime : Option Regime) (stamp : Stamp) :
    (model.predict libm none features target regime stamp).2 = none := by
  cases model <;> rfl

/-- One prediction, with the model and without. -/
theorem predict_kept (libm : Libm) (stages : Stages) (e : PredictionEngine) (req : PredictRequest) (stamp : Stamp) (now featuresAt : TimestampMs) :
    Kept (e.predict libm stages req stamp now featuresAt).1 (e.withoutMl.predict libm stages req stamp now featuresAt).1 ∧
      (e.predict libm stages req stamp now featuresAt).2.withoutMl = (e.withoutMl.predict libm stages req stamp now featuresAt).2 := by
  have hprepare : e.withoutMl.prepare stages req featuresAt = e.prepare stages req featuresAt := rfl
  unfold predict
  rw [hprepare]
  rcases e.prepare stages req featuresAt with err | ⟨features, regime, model⟩
  · exact ⟨.error err, rfl⟩
  dsimp only
  have hnone := model_predict_none libm features model req.target (some regime) stamp
  have hruntime : e.withoutMl.models.ml_runtime = none := rfl
  have hblended := model_blended libm features model e.models.ml_runtime req.target (some regime)
    stamp
  rw [hruntime]
  rcases hmodel : model.predict libm e.models.ml_runtime features req.target (some regime) stamp with ⟨answer, after⟩
  rcases hmodel' : model.predict libm none features req.target (some regime) stamp with ⟨answer', after'⟩
  rw [hmodel, hmodel'] at hblended
  rw [hmodel'] at hnone
  subst hnone
  rcases hblended with ⟨what, rfl, rfl⟩ | ⟨out, out', rfl, rfl, hblended⟩
  · exact ⟨.error _, rfl⟩
  · refine ⟨finish_kept ?_ req _, rfl⟩
    cases after with
    | none => exact hblended
    | some rt => exact fusion_blended.trans hblended

theorem call_kept (host : Host) (stages : Stages) (e : PredictionEngine) (c : Call) :
    List.Forall₂ Kept (e.call host stages c).1 (e.withoutMl.call host stages c).1 ∧
      (e.call host stages c).2.withoutMl = (e.withoutMl.call host stages c).2 := by
  cases c with
  | observe crashPoint beganAtMs now => exact ⟨.nil, rfl⟩
  | predict req stamp now featuresAt =>
    obtain ⟨hkept, hstate⟩ := predict_kept host.libm stages e req stamp now featuresAt
    exact ⟨.cons hkept .nil, hstate⟩
  | runtime c => exact ⟨.nil, rfl⟩

/-- Whatever is done to an engine and to its runtime, with any configuration: the model never makes a prediction fail that
    would have succeeded without it, and it changes nothing but the numbers, which stay valid. -/
theorem answers_kept (host : Host) (stages : Stages) : ∀ (calls : List Call) (e : PredictionEngine),
    List.Forall₂ Kept (answers host stages e calls) (answers host stages e.withoutMl calls)
  | [], _ => .nil
  | c :: calls, e => by
    obtain ⟨hkept, hstate⟩ := call_kept host stages e c
    have ih := answers_kept host stages calls (e.call host stages c).2
    rw [hstate] at ih
    exact List.rel_append hkept ih

/-! ### Shadow mode -/

/-- A result without the entry of the summary that shadow mode writes. -/
def unshadow (p : PredictResult) : PredictResult :=
  { p with
    output := { p.output with featureSummary := Function.update p.output.featureSummary "ml_p_shadow" none }
    signal := { p.signal with featureSummary := Function.update p.signal.featureSummary "ml_p_shadow" none } }

/-- Nothing is loaded that has a weight. -/
def Quiet : Call → Prop
  | .runtime (.loadFromConfig _ cfg) => fuses cfg = false
  | _ => True

/-- A prediction that the adapter of the runtime is asked for. -/
def asksMl (e : PredictionEngine) : Call → Bool
  | .predict req .. =>
    match e.resolve req with
    | .ok (.ml _) => true
    | _ => false
  | _ => false

/-- Of the answers over a run those that are not the adapter's. -/
def statisticalAnswers (host : Host) (stages : Stages) : PredictionEngine → List Call → List Answer
  | _, [] => []
  | e, c :: calls =>
    (if e.asksMl c then [] else (e.call host stages c).1) ++ statisticalAnswers host stages (e.call host stages c).2 calls

theorem call_cfg (rt : MLRuntime) (c : MLRuntime.Call) (hquiet : fuses rt.cfg = false)
    (hcall : ∀ files cfg, c = .loadFromConfig files cfg → fuses cfg = false) : fuses (rt.call host c).cfg = false := by
  have hload (files : Files) (cfg : MLModelConfig) : (rt.loadFromConfig host files cfg).2.cfg = cfg := by
    unfold MLRuntime.loadFromConfig MLRuntime.install
    dsimp only
    repeat' split
    all_goals rfl
  have hhealth : rt.checkHealth.cfg = rt.cfg := by
    unfold MLRuntime.checkHealth MLRuntime.markDegraded
    split <;> first | rfl | (split <;> rfl)
  cases c with
  | loadFromConfig files cfg =>
    rw [MLRuntime.call, hload]
    exact hcall files cfg rfl
  | loadDefault files =>
    rw [MLRuntime.call, MLRuntime.loadDefault, hload]
    rfl
  | predict features => rwa [MLRuntime.call, predict_cfg]
  | checkHealth => rwa [MLRuntime.call, hhealth]
  | markDegraded =>
    unfold MLRuntime.call MLRuntime.markDegraded
    dsimp only
    split <;> exact hquiet

theorem finish_unshadow (features : FeatureVector) (regime : Regime) (req : PredictRequest) (lifecycle : EngineLifecycleState) {summary : String → Option Binary64}
    (hsummary : ∀ key, key ≠ "ml_p_shadow" → summary key = out.featureSummary key) :
    (finish req features regime lifecycle { out with featureSummary := summary }).map unshadow =
      (finish req features regime lifecycle out).map unshadow := by
  have hupdate : Function.update summary "ml_p_shadow" none = Function.update out.featureSummary "ml_p_shadow" none := by
    funext key
    by_cases hkey : key = "ml_p_shadow"
    · rw [hkey, Function.update_self, Function.update_self]
    · rw [Function.update_of_ne hkey, Function.update_of_ne hkey, hsummary key hkey]
  have hvalid : validatePredictionOutput { out with featureSummary := summary } = validatePredictionOutput out := rfl
  have hsignal : validateSignal (toSignal { out with featureSummary := summary } .v2Incremental req.targetRoundId) =
    validateSignal (toSignal out .v2Incremental req.targetRoundId) := rfl
  unfold finish
  rw [hvalid]
  rcases validatePredictionOutput out with err | _
  · rfl
  dsimp only [bind, Except.bind]
  rw [hsignal]
  rcases validateSignal (toSignal out .v2Incremental req.targetRoundId) with err | _
  · rfl
  · simp only [Except.map, pure, Except.pure, unshadow, toSignal, hupdate]

theorem predict_unshadow (libm : Libm) (stages : Stages) (hquiet : ∀ rt ∈ e.models.ml_runtime, fuses rt.cfg = false)
    {req : PredictRequest} {stamp : Stamp} {now featuresAt : TimestampMs}
    (hstatistical : e.asksMl (.predict req stamp now featuresAt) = false) :
    (e.predict libm stages req stamp now featuresAt).1.map unshadow =
      (e.withoutMl.predict libm stages req stamp now featuresAt).1.map unshadow := by
  have hprepare : e.withoutMl.prepare stages req featuresAt = e.prepare stages req featuresAt := rfl
  unfold predict
  rw [hprepare]
  rcases hprep : e.prepare stages req featuresAt with err | ⟨features, regime, model⟩
  · rfl
  have hresolve : e.resolve req = .ok model := by
    unfold prepare at hprep
    simp only [bind, Except.bind, pure, Except.pure] at hprep
    split at hprep
    · cases hprep
    split at hprep
    · cases hprep
    split at hprep
    · cases hprep
    · rename_i hresolve
      rw [hresolve]
      injection hprep with hprep
      injection hprep with _ hprep
      injection hprep with _ hprep
      rw [hprep]
  cases model with
  | ml model => simp [asksMl, hresolve] at hstatistical
  | statistical identity run =>
    have hnone : e.withoutMl.models.ml_runtime = none := rfl
    have hstate : e.withoutMl.state = e.state := rfl
    rw [hnone, hstate]
    dsimp only [PredictiveModel.predict]
    rcases run features req.target (some regime) stamp with what | out
    · rfl
    dsimp only
    rcases hruntime : e.models.ml_runtime with _ | rt
    · rfl
    · obtain ⟨summary, hsummary, hout⟩ := fusion_of_quiet libm (hquiet rt hruntime)
        (decide (identity.name = "ml-predictive")) features regime out
      have hfinish := finish_unshadow features regime req (e.state.getLifecycleState now) hsummary
      rw [← hout] at hfinish
      rw [Option.map_some, Option.map_some, Option.getD_some, Option.map_none, Option.map_none, Option.getD_none]
      exact hfinish

theorem model_predict_cfg {model : PredictiveModel} {runtime : Option MLRuntime} {target : Double}
    {regime : Option Regime} {stamp : Stamp} {rt : MLRuntime}
    (hrt : rt ∈ (model.predict libm runtime features target regime stamp).2) : ∃ rt₀ ∈ runtime, rt.cfg = rt₀.cfg := by
  cases model with
  | statistical identity run => exact ⟨rt, hrt, rfl⟩
  | ml model =>
    simp only [PredictiveModel.predict, MLPredictiveModel.predict, Option.map_map, Option.mem_map] at hrt
    obtain ⟨rt₀, hrt₀, rfl⟩ := hrt
    exact ⟨rt₀, hrt₀, predict_cfg⟩

/-- A prediction leaves the configuration as it is. -/
theorem predict_runtime_cfg {req : PredictRequest} {stamp : Stamp} {now featuresAt : TimestampMs} {rt : MLRuntime}
    (hrt : rt ∈ (e.predict libm stages req stamp now featuresAt).2.models.ml_runtime) :
    ∃ rt₀ ∈ e.models.ml_runtime, rt.cfg = rt₀.cfg := by
  unfold predict at hrt
  rcases hprep : e.prepare stages req featuresAt with err | ⟨features, regime, model⟩
  · rw [hprep] at hrt
    exact ⟨rt, hrt, rfl⟩
  rw [hprep] at hrt
  dsimp only at hrt
  rcases hmodel : model.predict libm e.models.ml_runtime features req.target (some regime) stamp with ⟨answer, after⟩
  rw [hmodel] at hrt
  have hafter : ∀ rt ∈ after, ∃ rt₀ ∈ e.models.ml_runtime, rt.cfg = rt₀.cfg := by
    intro rt hrt
    obtain rfl : (model.predict libm e.models.ml_runtime features req.target (some regime) stamp).2 = after :=
      congrArg Prod.snd hmodel
    exact model_predict_cfg hrt
  cases answer with
  | error what => exact hafter rt hrt
  | ok out =>
    obtain ⟨_, hfused, rfl⟩ := Option.mem_map.mp hrt
    obtain ⟨rt₁, hrt₁, rfl⟩ := Option.mem_map.mp hfused
    rw [fusion_cfg]
    exact hafter rt₁ hrt₁

/-- Whatever is done without a load that has a weight, the runtime stays without one. -/
theorem call_runtime_quiet (c : Call) (hc : Quiet c) (hquiet : ∀ rt ∈ e.models.ml_runtime, fuses rt.cfg = false) :
    ∀ rt ∈ (e.call host stages c).2.models.ml_runtime, fuses rt.cfg = false := by
  intro rt hrt
  cases c with
  | observe crashPoint beganAtMs now => exact hquiet rt hrt
  | predict req stamp now featuresAt =>
    obtain ⟨rt₀, hrt₀, hcfg⟩ := predict_runtime_cfg hrt
    rw [hcfg]
    exact hquiet rt₀ hrt₀
  | runtime c =>
    obtain ⟨rt₀, hrt₀, rfl⟩ := Option.mem_map.mp hrt
    refine call_cfg rt₀ c (hquiet rt₀ hrt₀) ?_
    rintro files cfg rfl
    exact hc

/-- In shadow, whatever happens to the runtime, and also if the adapter is asked in between: over a whole run the answers
    of the statistical models are those of an engine that was built without the model. -/
theorem answers_unshadow (host : Host) (stages : Stages) : ∀ (calls : List Call) (e : PredictionEngine),
    (∀ rt ∈ e.models.ml_runtime, fuses rt.cfg = false) → (∀ c ∈ calls, Quiet c) →
      (statisticalAnswers host stages e calls).map (·.map unshadow) =
        (statisticalAnswers host stages e.withoutMl calls).map (·.map unshadow)
  | [], _, _, _ => rfl
  | c :: calls, e, hquiet, hcalls => by
    obtain ⟨hc, hrest⟩ := List.forall_mem_cons.mp hcalls
    have hsame : e.withoutMl.asksMl c = e.asksMl c := rfl
    have hanswer (hstatistical : e.asksMl c = false) :
        (e.call host stages c).1.map (·.map unshadow) = (e.withoutMl.call host stages c).1.map (·.map unshadow) := by
      cases c with
      | observe crashPoint beganAtMs now => rfl
      | predict req stamp now featuresAt =>
        exact congrArg (fun a => [a]) (predict_unshadow host.libm stages hquiet hstatistical)
      | runtime c => rfl
    have ih := answers_unshadow host stages calls (e.call host stages c).2 (call_runtime_quiet c hc hquiet) hrest
    rw [(call_kept host stages e c).2] at ih
    rw [statisticalAnswers, statisticalAnswers, hsame, List.map_append, List.map_append, ih]
    by_cases hask : e.asksMl c = true
    · rw [if_pos hask, if_pos hask]
    · rw [if_neg hask, if_neg hask, hanswer (Bool.eq_false_iff.mpr hask)]

/-- An engine with a model that always says 70 percent, the adapter, and a runtime. -/
def flatEngine : PredictionEngine where
  models := {
    models := [("flat@1", .statistical ⟨"flat", "1", "fv-2.1.0", "targets-v1"⟩ fun features target regime stamp => .ok {
      predictionId := stamp.predictionId
      model := ⟨"flat", "1", "fv-2.1.0", "targets-v1"⟩
      target
      score := .finite (7 / 10)
      probability := .finite (7 / 10)
      confidence := .finite (1 / 2)
      regime
      dataQuality := features.dataQualityScore
      featureSummary := fun _ => none
      reasoning := []
      timestamp := stamp.timestamp
      expiresAt := stamp.expiresAt }), ("ml-predictive@1.0.0", .ml {})]
    defaultKey := "flat@1"
    ml_runtime := some {} }

def flatStages : Stages where
  compute _ roundId _ := .ok { roundId, values := fun _ => none }
  detect _ := .ok ⟨"neutral", false, .finite (6 / 10)⟩

def flatCalls : List Call := [.runtime (.loadDefault fun _ => none), .observe (some 2) none 0,
  .predict { targetRoundId := "2" } ⟨"p", "0", "30"⟩ 0 0,
  .predict { targetRoundId := "2", modelName := some "ml-predictive" } ⟨"q", "0", "30"⟩ 0 0, .runtime .markDegraded,
  .predict { targetRoundId := "3" } ⟨"r", "1", "31"⟩ 1 1]

theorem answers_unshadow_flat :
    (statisticalAnswers MLRuntime.someHost flatStages flatEngine flatCalls).map (·.map unshadow) =
      (statisticalAnswers MLRuntime.someHost flatStages flatEngine.withoutMl flatCalls).map (·.map unshadow) := by
  refine answers_unshadow _ _ _ _ ?_ ?_
  · rintro rt hrt
    obtain rfl := Option.some.inj hrt
    rfl
  · simp [flatCalls, Quiet]

end PredictionEngine
end CrashCore.Pe
