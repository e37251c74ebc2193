import CrashCore.PredictionsEngine.MlRuntime
import CrashCore.Theorems.ModelArtifacts
import Mathlib.Data.List.Induction

/-! The runtime of the model over all its calls: it is live only with a model that was loaded as its configuration says,
and it gives up at the first failure that makes more than one failure in twenty, and not before the fiftieth attempt. -/

namespace CrashCore.Pe
open Binary64 (Libm)

/-! ### Health -/

/-- Up to `2 ^ 52` attempts the comparison of the rounded quotients is that of the counts. -/
theorem MLHealth.shouldDegrade_iff {h : MLHealth} (hcount : h.inference_count ≤ 4503599627370496)
    (herror : h.error_count ≤ h.inference_count) :
    h.shouldDegrade = true ↔ 50 ≤ h.inference_count ∧ h.inference_count < 20 * h.error_count := by
  have hrate : (5 / 100 : Rat) = 1 / 20 := by norm_num
  unfold shouldDegrade
  rw [Double.nearest_natCast hcount, Double.nearest_natCast (herror.trans hcount), hrate]
  split
  · rename_i hfew
    simp only [Bool.false_eq_true, false_iff]
    exact fun h => absurd hfew (not_lt.mpr h.1)
  rename_i hmany
  have hpos : (0 : Rat) < h.inference_count := by
    have hlt : 0 < h.inference_count := by omega
    exact_mod_cast hlt
  rw [decide_eq_true_iff]
  constructor
  · intro hlt
    refine ⟨not_lt.mp hmany, ?_⟩
    by_contra hle
    rw [not_lt] at hle
    have hquot : (h.error_count : Rat) / h.inference_count ≤ 1 / 20 := by
      rw [div_le_div_iff₀ hpos (by norm_num)]
      have hcast : ((20 * h.error_count : Nat) : Rat) ≤ h.inference_count := by exact_mod_cast hle
      push_cast at hcast
      linarith
    exact absurd (Double.nearest_mono hquot) (not_le.mpr hlt)
  · rintro ⟨-, hlt⟩
    -- the next count is more than a rounding away
    have hgap : Double.nearest (1 / 20) < .nearest (1 / 20 + 1 / (20 * 4503599627370496)) := by decide +kernel
    refine hgap.trans_le (Double.nearest_mono ?_)
    rw [le_div_iff₀ hpos]
    have hsucc : (h.inference_count : Rat) + 1 ≤ 20 * h.error_count := by exact_mod_cast hlt
    have hbound : (h.inference_count : Rat) ≤ 4503599627370496 := by exact_mod_cast hcount
    linarith

namespace MLRuntime
variable {host : Host} {libm : Libm} {rt rt' : MLRuntime} {features : FeatureVector}

theorem checkHealth_cases (rt : MLRuntime) (hlive : rt.state = .live) (hcount : rt.health.inference_count ≤ 4503599627370496)
    (herror : rt.health.error_count ≤ rt.health.inference_count) :
    (50 ≤ rt.health.inference_count ∧ rt.health.inference_count < 20 * rt.health.error_count ∧
      rt.checkHealth = { rt with state := .degraded }) ∨
    ((rt.health.error_count < 50 ∨ 20 * rt.health.error_count ≤ rt.health.inference_count) ∧ rt.checkHealth = rt) := by
  have hiff := MLHealth.shouldDegrade_iff hcount herror
  unfold checkHealth markDegraded
  by_cases hdegrade : rt.health.shouldDegrade = true
  · rw [if_pos hdegrade, if_pos hlive]
    exact .inl ⟨(hiff.mp hdegrade).1, (hiff.mp hdegrade).2, rfl⟩
  · rw [if_neg hdegrade]
    refine .inr ⟨?_, rfl⟩
    rw [hiff] at hdegrade
    omega

theorem checkHealth_of_ne (h : rt.state ≠ .live) : rt.checkHealth = rt := by
  rw [checkHealth, markDegraded, if_neg h, ite_self]

/-- An attempt of a live runtime is counted as a success, or as one of two failures. -/
theorem predict_cases (libm : Libm) (features : FeatureVector) (hlive : rt.state = .live) (hmodel : rt.model.isSome) :
    (∃ r, rt.predict libm features = (some r, { rt with health := rt.health.recordSuccess })) ∨
    rt.predict libm features = (none, { rt with health := rt.health.recordNaN }.checkHealth) ∨
    rt.predict libm features = (none, { rt with health := rt.health.recordFeatureMismatch }.checkHealth) := by
  obtain ⟨model, hmodel⟩ := Option.isSome_iff_exists.mp hmodel
  have hactive : rt.activeModel = some model := by rw [activeModel, if_neg (not_not.mpr hlive), hmodel]
  rw [predict, if_neg (not_not.mpr hlive), hactive]
  dsimp only
  split
  · exact .inr (.inr rfl)
  · split
    · exact .inr (.inr rfl)
    · unfold infer
      dsimp only
      split
      · exact .inr (.inl rfl)
      · exact .inl ⟨_, rfl⟩

theorem predict_of_ne (h : rt.state ≠ .live) : rt.predict libm features = (none, rt) := if_pos h

/-! ### Loading -/

/-- A model that passed the inference on zeros. -/
structure Usable (model : MLLogisticModel) : Prop where
  weights : model.weights ≠ []
  finite : ∀ w ∈ model.weights, (Binary64.ofBits w).isFinite = true
  bias : Binary64.ofBits model.bias ≠ .nan

theorem install_cases (hlibm : libm.Lawful) (rt : MLRuntime) (loaded : LoadedModel) :
    (Usable loaded.model ∧ rt.install libm loaded = (true, { rt with
      state := .live, model := some loaded.model, normalizer := loaded.normalizer, calibrator := loaded.calibrator,
      health := {} })) ∨
    rt.install libm loaded = (false, { rt with
      state := .failed, model := none, normalizer := loaded.normalizer, calibrator := loaded.calibrator }) := by
  unfold install
  dsimp only
  split
  · exact .inr rfl
  · rename_i hvalid
    refine .inl ⟨?_, rfl⟩
    have hne : loaded.model.weights.length ≠ 0 := by
      intro h
      exact hvalid (by simp [MLInference.run, MLLogisticModel.featureCount, h])
    simp only [MLInference.run, List.length_replicate, MLLogisticModel.featureCount, if_neg hne, ne_eq, not_true,
      if_false, Bool.not_eq_true', Bool.not_eq_false, MLLogisticModel.predict_zeros_valid_iff hlibm rfl] at hvalid
    exact ⟨fun h => hne (by rw [h, List.length_nil]), hvalid.2, hvalid.1⟩

/-- The model that a configuration asks for: that of its file, and the default one when it names no file. -/
def askedFor (host : Host) (files : Files) (cfg : MLModelConfig) : Option LoadedModel :=
  if cfg.model_path = "" then some (makeDefaultLogisticModel host cfg.expected_features)
  else loadModelFromBinary host.libm files cfg.model_path cfg.checksum_path cfg.schema_path cfg.metadata_path

/-- The runtime has the model that its configuration asks for, as it was found in these files. -/
structure LoadedFrom (host : Host) (files : Files) (rt : MLRuntime) : Prop where
  enabled : rt.cfg.enabled = true
  usable : ∃ model ∈ rt.model, Usable model
  asked : ∃ loaded ∈ askedFor host files rt.cfg,
    rt.model = some loaded.model ∧ rt.normalizer = loaded.normalizer ∧ rt.calibrator = loaded.calibrator

theorem askedFor_of_path {files : Files} {cfg : MLModelConfig} (h : cfg.model_path ≠ "") :
    askedFor host files cfg =
      loadModelFromBinary host.libm files cfg.model_path cfg.checksum_path cfg.schema_path cfg.metadata_path := if_neg h

/-- As many features as are expected, or all of them. -/
theorem askedFor_of_no_path {files : Files} {cfg : MLModelConfig} (h : cfg.model_path = "") :
    askedFor host files cfg = some (makeDefaultLogisticModel host
      (if 0 < cfg.expected_features then cfg.expected_features else mlFeatureOrder.length)) := by
  rw [askedFor, if_pos h]
  split
  · rfl
  · rename_i hnone
    rw [Nat.eq_zero_of_not_pos hnone]
    rfl

/-- A load makes the runtime live with a fresh health, or leaves it failed with the old one. -/
theorem loadFromConfig_cases (hlibm : host.libm.Lawful) (files : Files) (cfg : MLModelConfig) :
    ((rt.loadFromConfig host files cfg).2.state = .live ∧ (rt.loadFromConfig host files cfg).2.health = {} ∧
      (rt.loadFromConfig host files cfg).2.cfg = cfg ∧ LoadedFrom host files (rt.loadFromConfig host files cfg).2) ∨
    (rt.loadFromConfig host files cfg).2.state = .failed ∧
      (rt.loadFromConfig host files cfg).2.health = rt.health := by
  unfold loadFromConfig
  dsimp only
  split
  · exact .inr ⟨rfl, rfl⟩
  rename_i henabled
  rw [Bool.not_eq_true', Bool.not_eq_false] at henabled
  split
  · rename_i hpath
    split
    · exact .inr ⟨rfl, rfl⟩
    · rename_i loaded hloaded
      rcases install_cases hlibm { rt with cfg, state := .validating } loaded with ⟨husable, h⟩ | h
      · rw [h]
        exact .inl ⟨rfl, rfl, rfl, henabled, ⟨_, rfl, husable⟩,
          loaded, (askedFor_of_path hpath).trans hloaded, rfl, rfl, rfl⟩
      · rw [h]
        exact .inr ⟨rfl, rfl⟩
  · rename_i hpath
    rcases install_cases hlibm { rt with cfg, state := .validating } (makeDefaultLogisticModel host
      (if 0 < cfg.expected_features then cfg.expected_features else mlFeatureOrder.length)) with ⟨husable, h⟩ | h
    · rw [h]
      exact .inl ⟨rfl, rfl, rfl, henabled, ⟨_, rfl, husable⟩,
        _, askedFor_of_no_path (not_not.mp hpath), rfl, rfl, rfl⟩
    · rw [h]
      exact .inr ⟨rfl, rfl⟩

/-! ### Runs -/

/-- A runtime with the attempts since its model went live: whether each had a result. -/
abbrev Observed := MLRuntime × List Bool

def observe (host : Host) (o : Observed) (c : Call) : Observed :=
  let rt := o.1.call host c
  (rt, match c with
    | .loadFromConfig .. | .loadDefault _ => if rt.state = .live then [] else o.2
    | .predict features => if o.1.state = .live then o.2 ++ [(o.1.predict host.libm features).1.isSome] else o.2
    | .checkHealth | .markDegraded => o.2)

/-- The configuration of `loadDefault`. -/
def defaultConfig : MLModelConfig where
  enabled := true
  expected_features := mlFeatureOrder.length

/-- The counters say what the attempts were. -/
structure Counted (health : MLHealth) (seen : List Bool) : Prop where
  attempts : health.inference_count = seen.length
  errors : health.error_count = seen.count false
  kinds : health.error_count = health.nan_count + health.mismatch_count

structure Sound (host : Host) (calls : List Call) (o : Observed) : Prop where
  settled : o.1.state = .live ∨ o.1.state = .degraded ∨ o.1.state = .failed
  loaded : o.1.state ≠ .failed → ∃ files, LoadedFrom host files o.1 ∧
    (.loadFromConfig files o.1.cfg ∈ calls ∨ .loadDefault files ∈ calls ∧ o.1.cfg = defaultConfig)
  counted : Counted o.1.health o.2
  live : o.1.state = .live → o.2.count false < 50 ∨ 20 * o.2.count false ≤ o.2.length
  degraded : .markDegraded ∉ calls → o.1.state = .degraded → 50 ≤ o.2.length ∧ o.2.length < 20 * o.2.count false

variable {calls : List Call} {o : Observed} {c : Call} {health : MLHealth} {seen : List Bool}

theorem counted_nil : Counted {} [] := ⟨rfl, rfl, rfl⟩

theorem Counted.success (h : Counted health seen) : Counted health.recordSuccess (seen ++ [true]) where
  attempts := by simp [MLHealth.recordSuccess, h.attempts]
  errors := by simp [MLHealth.recordSuccess, h.errors]
  kinds := h.kinds

theorem Counted.nan (h : Counted health seen) : Counted health.recordNaN (seen ++ [false]) where
  attempts := by simp [MLHealth.recordNaN, h.attempts]
  errors := by simp [MLHealth.recordNaN, h.errors]
  kinds := by
    simp only [MLHealth.recordNaN, h.kinds]
    omega

theorem Counted.mismatch (h : Counted health seen) : Counted health.recordFeatureMismatch (seen ++ [false]) where
  attempts := by simp [MLHealth.recordFeatureMismatch, h.attempts]
  errors := by simp [MLHealth.recordFeatureMismatch, h.errors]
  kinds := by
    simp only [MLHealth.recordFeatureMismatch, h.kinds]
    omega

/-- A runtime keeps its model as long as nothing is loaded. -/
theorem LoadedFrom.congr {files : Files} (h : LoadedFrom host files rt) (hcfg : rt'.cfg = rt.cfg)
    (hmodel : rt'.model = rt.model) (hnorm : rt'.normalizer = rt.normalizer) (hcal : rt'.calibrator = rt.calibrator) :
    LoadedFrom host files rt' where
  enabled := by rw [hcfg, h.enabled]
  usable := by
    rw [hmodel]
    exact h.usable
  asked := by
    rw [hcfg, hmodel, hnorm, hcal]
    exact h.asked

theorem Sound.append (h : Sound host calls o) (c : Call) : Sound host (calls ++ [c]) o where
  settled := h.settled
  loaded hne := by
    obtain ⟨files, hfrom, hmem⟩ := h.loaded hne
    exact ⟨files, hfrom, hmem.imp (List.mem_append_left _) (.imp_left (List.mem_append_left _))⟩
  counted := h.counted
  live := h.live
  degraded hnot := h.degraded fun hmem => hnot (List.mem_append_left _ hmem)

theorem sound_load (h : Sound host calls o) {files : Files} {cfg : MLModelConfig}
    (hmem : .loadFromConfig files cfg ∈ calls ∨ .loadDefault files ∈ calls ∧ cfg = defaultConfig)
    (hcases : (rt.state = .live ∧ rt.health = {} ∧ rt.cfg = cfg ∧ LoadedFrom host files rt) ∨
      rt.state = .failed ∧ rt.health = o.1.health) :
    Sound host calls (rt, if rt.state = .live then [] else o.2) := by
  rcases hcases with ⟨hlive, hhealth, rfl, hfrom⟩ | ⟨hfailed, hhealth⟩
  · rw [if_pos hlive]
    exact {
      settled := .inl hlive
      loaded := fun _ => ⟨files, hfrom, hmem⟩
      counted := by
        rw [hhealth]
        exact counted_nil
      live := fun _ => .inl (Nat.zero_lt_succ _)
      degraded := fun _ hdegraded => by simp [hlive] at hdegraded }
  · rw [if_neg (by simp [hfailed])]
    exact {
      settled := .inr (.inr hfailed)
      loaded := fun hne => absurd hfailed hne
      counted := by
        rw [hhealth]
        exact h.counted
      live := fun hlive => by simp [hfailed] at hlive
      degraded := fun _ hdegraded => by simp [hfailed] at hdegraded }

/-- A look at the health, with these counters, of a runtime that was live. -/
theorem sound_checkHealth (h : Sound host calls o) (hlive : o.1.state = .live) (hcounted : Counted health seen)
    (hlen : seen.length ≤ 4503599627370496) :
    Sound host calls ({ o.1 with health }.checkHealth, seen) := by
  have hne : o.1.state ≠ .failed := by simp [hlive]
  have hcount := hcounted.attempts
  have herror := hcounted.errors
  have hbound : health.inference_count ≤ 4503599627370496 := hcount.trans_le hlen
  have hle : health.error_count ≤ health.inference_count := by
    rw [hcount, herror]
    exact List.count_le_length
  obtain ⟨files, hfrom, hmem⟩ := h.loaded hne
  rcases checkHealth_cases { o.1 with health } hlive hbound hle with ⟨hmany, hrate, hto⟩ | ⟨hrate, hto⟩
  · rw [hto]
    dsimp only at hmany hrate
    exact {
      settled := .inr (.inl rfl)
      loaded := fun _ => ⟨files, hfrom.congr rfl rfl rfl rfl, hmem⟩
      counted := hcounted
      live := fun hback => by simp at hback
      degraded := fun _ _ => by dsimp only; omega }
  · rw [hto]
    dsimp only at hrate
    exact {
      settled := .inl hlive
      loaded := fun _ => ⟨files, hfrom.congr rfl rfl rfl rfl, hmem⟩
      counted := hcounted
      live := fun _ => by dsimp only; omega
      degraded := fun _ hdegraded => by simp [hlive] at hdegraded }

theorem Sound.predict (h : Sound host calls o) (hlen : o.2.length < 4503599627370496) (features : FeatureVector) :
    Sound host calls (observe host o (.predict features)) := by
  by_cases hlive : o.1.state = .live
  · have hne : o.1.state ≠ .failed := by simp [hlive]
    obtain ⟨files, hfrom, hmem⟩ := h.loaded hne
    obtain ⟨model, hmodel, -⟩ := hfrom.usable
    have hcases := predict_cases host.libm features hlive (Option.isSome_of_mem hmodel)
    have hlen' (b : Bool) : (o.2 ++ [b]).length ≤ 4503599627370496 := by
      rw [List.length_append]
      exact hlen
    unfold observe call
    dsimp only
    rw [if_pos hlive]
    rcases hcases with ⟨r, hpredict⟩ | hpredict | hpredict
    · rw [hpredict]
      have hcount := h.live hlive
      exact {
        settled := .inl hlive
        loaded := fun _ => ⟨files, hfrom.congr rfl rfl rfl rfl, hmem⟩
        counted := h.counted.success
        live := fun _ => by simp; omega
        degraded := fun _ hdegraded => by simp [hlive] at hdegraded }
    · rw [hpredict]
      exact sound_checkHealth h hlive h.counted.nan (hlen' false)
    · rw [hpredict]
      exact sound_checkHealth h hlive h.counted.mismatch (hlen' false)
  · unfold observe call
    dsimp only
    rw [predict_of_ne hlive, if_neg hlive]
    exact h

theorem Sound.step (hlibm : host.libm.Lawful) (h : Sound host calls o) (hlen : o.2.length < 4503599627370496) (c : Call) :
    Sound host (calls ++ [c]) (observe host o c) := by
  have hlast : c ∈ calls ++ [c] := List.mem_append_right _ List.mem_cons_self
  have hcalls := h.append c
  cases c with
  | loadFromConfig files cfg => exact sound_load hcalls (.inl hlast) (loadFromConfig_cases hlibm files cfg)
  | loadDefault files => exact sound_load hcalls (.inr ⟨hlast, rfl⟩) (loadFromConfig_cases hlibm files defaultConfig)
  | predict features => exact hcalls.predict hlen features
  | checkHealth =>
    by_cases hlive : o.1.state = .live
    · exact sound_checkHealth hcalls hlive h.counted hlen.le
    · rw [observe, call, checkHealth_of_ne hlive]
      exact hcalls
  | markDegraded =>
    by_cases hlive : o.1.state = .live
    · obtain ⟨files, hfrom, hmem⟩ := hcalls.loaded (by simp [hlive])
      rw [observe, call, MLRuntime.markDegraded, if_pos hlive]
      exact {
        settled := .inr (.inl rfl)
        loaded := fun _ => ⟨files, hfrom.congr rfl rfl rfl rfl, hmem⟩
        counted := h.counted
        live := fun hback => by simp at hback
        degraded := fun hnot => absurd hlast hnot }
    · rw [observe, call, MLRuntime.markDegraded, if_neg hlive]
      exact hcalls

theorem length_observe_le (host : Host) (o : Observed) (c : Call) : (observe host o c).2.length ≤ o.2.length + 1 := by
  cases c <;> simp only [observe] <;> first | omega | (split <;> simp)

/-- Whatever is done to it, up to `2 ^ 52` times, a runtime is live only with a usable model, the one its configuration asks
    for, its counters are those of the attempts since then, and it is live exactly as long as its failures are few. -/
theorem sound_observed (hlibm : host.libm.Lawful) (calls : List Call) (hlen : calls.length ≤ 2 ^ 52) :
    Sound host calls (calls.foldl (observe host) ({}, [])) := by
  suffices h : Sound host calls (calls.foldl (observe host) ({}, [])) ∧
      (calls.foldl (observe host) ({}, [])).2.length ≤ calls.length from h.1
  induction calls using List.reverseRecOn with
  | nil => exact ⟨⟨.inr (.inr rfl), fun h => absurd rfl h, counted_nil, nofun, nofun⟩, le_rfl⟩
  | append_singleton calls c ih =>
    rw [List.length_append, List.length_singleton] at hlen
    obtain ⟨hsound, hle⟩ := ih (by omega)
    rw [List.foldl_append, List.foldl_cons, List.foldl_nil, List.length_append, List.length_singleton]
    exact ⟨hsound.step hlibm (by omega) c, (length_observe_le host _ c).trans (by omega)⟩

/-- The computer that `someModel` was made for. -/
def someHost : Host where
  libm := coarseLibm
  priorBits := someBias

/-- All features are there but one, which is no number. -/
def oneNan : FeatureVector where
  values name := if name = "hour_sin" then some .nan else some (.finite (1 / 2))

def allHalf : FeatureVector where
  values _ := some (.finite (1 / 2))

/-- Both models are loaded, asked for a probability, and looked at. -/
def someCalls : List Call := [.loadDefault fun _ => none, .predict allHalf, .predict oneNan, .checkHealth,
  .loadFromConfig someFiles { enabled := true, model_path := "model.bin", checksum_path := "model.sha256" },
  .predict allHalf, .predict oneNan, .markDegraded, .predict allHalf]

theorem sound_observed_some : Sound someHost someCalls (someCalls.foldl (observe someHost) ({}, [])) :=
  sound_observed coarseLibm_lawful someCalls (by decide)

/-! ### Predictions -/

/-- What is inferred from, for these features. -/
def inputs (rt : MLRuntime) (features : FeatureVector) : List Binary64 :=
  let values := mlFeatureOrder.map fun name => (features.values name).getD (.finite 0)
  (rt.normalizer.map (·.transform values)).getD values

def FeaturesFinite (features : FeatureVector) : Prop :=
  ∀ name ∈ mlFeatureOrder, ((features.values name).getD (.finite 0)).isFinite = true

theorem preprocess_eq_some_iff {values : List Binary64} : preprocess features = some values ↔
    FeaturesFinite features ∧ values = mlFeatureOrder.map fun name => (features.values name).getD (.finite 0) := by
  have hmapM (names : List String) : ∀ values, (names.mapM fun name =>
      if ((features.values name).getD (.finite 0)).isFinite then some ((features.values name).getD (.finite 0)) else none) =
        some values ↔ (∀ name ∈ names, ((features.values name).getD (.finite 0)).isFinite = true) ∧
          values = names.map fun name => (features.values name).getD (.finite 0) := by
    induction names with
    | nil => exact fun values => ⟨fun h => ⟨nofun, (Option.some.inj h).symm⟩, fun h => h.2 ▸ rfl⟩
    | cons name names ih =>
      intro values
      rw [List.mapM_cons]
      simp only [Option.bind_eq_bind, Option.bind_eq_some_iff, Option.ite_none_right_eq_some, Option.some.injEq, ih,
        Option.pure_def, List.forall_mem_cons, List.map_cons]
      constructor
      · rintro ⟨v, ⟨hfinite, rfl⟩, vs, ⟨hall, rfl⟩, rfl⟩
        exact ⟨⟨hfinite, hall⟩, rfl⟩
      · rintro ⟨⟨hfinite, hall⟩, rfl⟩
        exact ⟨_, ⟨hfinite, rfl⟩, _, ⟨hall, rfl⟩, rfl⟩
  have hcapacity : ¬MAX_ML_FEATURES < mlFeatureOrder.length := by decide
  rw [preprocess, if_neg hcapacity]
  exact hmapM mlFeatureOrder values

theorem length_transform (n : MLNormalizer) (values : List Binary64) : (n.transform values).length = values.length := by
  simp only [MLNormalizer.transform, List.length_append, List.length_map, List.length_zip, List.length_drop, n.sized]
  omega

theorem length_inputs : (rt.inputs features).length = 48 := by
  have hlen : mlFeatureOrder.length = 48 := rfl
  unfold inputs
  cases rt.normalizer with
  | none => simp [hlen]
  | some n => simp [length_transform, hlen]

/-- There is a probability exactly if the model is live, takes as many features as there are, and none of the features nor
    the logit is out of range. -/
theorem predict_isSome_iff (hlibm : libm.Lawful) : (rt.predict libm features).1.isSome = true ↔ rt.state = .live ∧
    ∃ model ∈ rt.model, model.featureCount = 48 ∧ FeaturesFinite features ∧ model.logit (rt.inputs features) ≠ .nan := by
  have hlen : mlFeatureOrder.length = 48 := rfl
  by_cases hlive : rt.state = .live
  swap
  · simp [predict_of_ne hlive, hlive]
  rw [predict, if_neg (not_not.mpr hlive), activeModel, if_neg (not_not.mpr hlive)]
  rcases hmodel : rt.model with _ | model
  · simp
  simp only [hlive, Option.mem_some_iff, exists_eq_left', true_and]
  rcases hvalues : preprocess features with _ | values
  · have hnot : ¬FeaturesFinite features := by
      intro hfinite
      rw [preprocess_eq_some_iff.mpr ⟨hfinite, rfl⟩] at hvalues
      cases hvalues
    simp [hnot]
  obtain ⟨hfinite, rfl⟩ := preprocess_eq_some_iff.mp hvalues
  dsimp only
  rw [List.length_map, hlen]
  split
  · rename_i hcount
    simp [Ne.symm hcount]
  · rename_i hcount
    have hcount := not_not.mp hcount
    have hinputs : (rt.normalizer.map (·.transform (mlFeatureOrder.map fun name =>
        (features.values name).getD (.finite 0)))).getD (mlFeatureOrder.map fun name =>
          (features.values name).getD (.finite 0)) = rt.inputs features := rfl
    have hweights : model.weights.length = 48 := hcount.symm
    have hrun : MLInference.run libm (some model) (rt.inputs features) = model.predict libm (rt.inputs features) := by
      simp [MLInference.run, length_inputs, ← hcount]
    rw [hinputs, infer, hrun, ← hcount]
    dsimp only
    by_cases hlogit : model.logit (rt.inputs features) = .nan
    · have hinvalid : (model.predict libm (rt.inputs features)).valid = false := by
        rw [Bool.eq_false_iff, ne_eq, MLLogisticModel.predict_valid_iff hlibm]
        exact fun h => h.2 hlogit
      simp [hinvalid, hlogit]
    · obtain ⟨q, hq, -⟩ := MLLogisticModel.predict_eq_of_valid hlibm (length_inputs.trans hweights.symm) hlogit
      simp [hq, Binary64.isFinite, hfinite, hlogit]

theorem predict_bounds {r : MLInferenceResult} (hr : r ∈ (rt.predict libm features).1) {lo hi : Double}
    (hmin : rt.cfg.minimum_probability = .finite lo) (hmax : rt.cfg.maximum_probability = .finite hi) (hle : lo ≤ hi) :
    ∃ q, r.probability = .finite q ∧ lo ≤ q ∧ q ≤ hi := by
  unfold predict infer at hr
  dsimp only at hr
  split at hr
  · cases hr
  split at hr
  · cases hr
  split at hr
  · cases hr
  split at hr
  · cases hr
  split at hr
  · cases hr
  · obtain rfl := Option.some.inj hr
    dsimp only
    rw [hmin, hmax]
    exact Binary64.min_max_eq hle _

/-- No probability is made up, and whatever the calibrator does, those there are keep to the bounds of the
    configuration. -/
theorem predict_sound (hlibm : libm.Lawful) (rt : MLRuntime) (features : FeatureVector) :
    ((rt.predict libm features).1.isSome = true ↔ rt.state = .live ∧ ∃ model ∈ rt.model, model.featureCount = 48 ∧
      FeaturesFinite features ∧ model.logit (rt.inputs features) ≠ .nan) ∧
    ∀ r ∈ (rt.predict libm features).1, ∀ lo hi, rt.cfg.minimum_probability = .finite lo →
      rt.cfg.maximum_probability = .finite hi → lo ≤ hi → ∃ q, r.probability = .finite q ∧ lo ≤ q ∧ q ≤ hi :=
  ⟨predict_isSome_iff hlibm, fun _ hr _ _ hmin hmax hle => predict_bounds hr hmin hmax hle⟩

/-- A live runtime with bounds of its own. -/
def someRuntime : MLRuntime where
  state := .live
  cfg := { enabled := true, minimum_probability := .finite (1 / 20), maximum_probability := .finite (19 / 20) }
  model := some someModel.model
  normalizer := someModel.normalizer
  calibrator := someModel.calibrator

theorem predict_sound_some : ∃ r ∈ (someRuntime.predict coarseLibm allHalf).1,
    ∃ q, r.probability = .finite q ∧ 1 / 20 ≤ q ∧ q ≤ 19 / 20 := by
  have hsound := predict_sound coarseLibm_lawful someRuntime allHalf
  have hfinite : FeaturesFinite allHalf := fun _ _ => rfl
  have hlogit : someModel.model.logit (someRuntime.inputs allHalf) ≠ .nan := by decide +kernel
  obtain ⟨r, hr⟩ := Option.isSome_iff_exists.mp (hsound.1.mpr ⟨rfl, _, rfl, rfl, hfinite, hlogit⟩)
  exact ⟨r, hr, hsound.2 r hr (1 / 20) (19 / 20) rfl rfl (by norm_num)⟩

end MLRuntime
end CrashCore.Pe
