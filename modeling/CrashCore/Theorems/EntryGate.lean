import CrashCore.Prediction.Strategy
import CrashCore.PredictionInterface.InProcessSubmit
import Mathlib.Tactic.Linarith

/-! What an entry of the client guarantees, when the older gate overrules the strategy, and how the strategy orders signals
and modes. Both gates must agree: the older one knows neither the reduced entry nor the lower thresholds of the high
frequency mode. -/

namespace CrashCore

variable {i : StrategyInput} {cfg : StrategyConfig} {sig : PredictionSignal} {opt : ClientOptions}
  {adaptive : Option AdaptiveEdge} {observed : Nat} {minConf target edge : Double}

/-! ### The older gate -/

/-- The edge that the older gate puts in the place of a negative one. -/
def usedEdge (edge : Double) : Double := if ¬0 ≤ edge then 2 / 100 else edge

theorem le_usedEdge : edge ≤ usedEdge edge := by
  unfold usedEdge
  split
  · linarith
  · exact le_rfl

theorem usedEdge_of_nonneg (h : 0 ≤ edge) : usedEdge edge = edge := if_neg (not_not_intro h)

theorem decisionFromSignal_enter_iff (htarget : 1 < target) :
    decisionFromSignal sig minConf target edge = .enter ↔
      (0 < sig.probability ∨ 0 < sig.confidence) ∧ 1 / target + usedEdge edge ≤ sig.probability ∧
        minConf ≤ sig.confidence := by
  unfold decisionFromSignal
  by_cases hzero : sig.probability ≤ 0 ∧ sig.confidence ≤ 0
  · rw [if_pos hzero]
    exact iff_of_false PredictionDecision.noConfusion fun h =>
      h.1.elim (not_lt_of_ge hzero.1) (not_lt_of_ge hzero.2)
  have hsignal : 0 < sig.probability ∨ 0 < sig.confidence := by rwa [not_and_or, not_le, not_le] at hzero
  rw [if_neg hzero, and_iff_right hsignal]
  dsimp only
  rw [if_neg (not_not_intro htarget)]
  change (if 1 / target + usedEdge edge ≤ sig.probability ∧ minConf ≤ sig.confidence then PredictionDecision.enter
    else .skip) = .enter ↔ _
  by_cases hstrong : 1 / target + usedEdge edge ≤ sig.probability ∧ minConf ≤ sig.confidence
  · rw [if_pos hstrong]
    exact iff_of_true rfl hstrong
  · rw [if_neg hstrong]
    exact iff_of_false PredictionDecision.noConfusion hstrong

theorem decisionFromSignal_skip_iff :
    decisionFromSignal sig minConf target edge = .skip ↔ decisionFromSignal sig minConf target edge ≠ .enter := by
  unfold decisionFromSignal
  split
  · simp
  · dsimp only
    split <;> simp

theorem fair_strategyInput (htarget : 1 < opt.defaultTarget) :
    (opt.strategyInput sig observed).fair cfg = 1 / opt.defaultTarget := by
  rw [StrategyInput.fair, ClientOptions.strategyInput, if_pos htarget, fairProbability, if_neg (not_not_intro htarget)]

/-- The client enters when both gates do. -/
theorem decision_enter_iff : opt.decision adaptive sig observed = .enter ↔
    (evaluateStrategy (opt.strategyInput sig observed) (opt.strategyConfig adaptive)).decision = .enter ∧
      decisionFromSignal sig opt.minConfidence opt.defaultTarget (opt.edge adaptive) = .enter := by
  unfold ClientOptions.decision
  by_cases hstrategy : (evaluateStrategy (opt.strategyInput sig observed) (opt.strategyConfig adaptive)).decision = .enter
  · dsimp only
    rw [if_pos hstrategy, and_iff_right hstrategy]
    change (if decisionFromSignal sig opt.minConfidence opt.defaultTarget (opt.edge adaptive) = .skip then
      PredictionDecision.skip else _) = .enter ↔ _
    by_cases hlegacy : decisionFromSignal sig opt.minConfidence opt.defaultTarget (opt.edge adaptive) = .skip
    · rw [if_pos hlegacy]
      exact iff_of_false PredictionDecision.noConfusion (decisionFromSignal_skip_iff.mp hlegacy)
    · rw [if_neg hlegacy]
      rw [decisionFromSignal_skip_iff, not_not] at hlegacy
      exact iff_of_true hstrategy hlegacy
  · dsimp only
    rw [if_neg hstrategy]
    exact iff_of_false hstrategy fun h => hstrategy h.1

/-- The strategy enters on less than the older gate asks for: in the quality mode it is a reduced entry, and in the
    high frequency mode one of the thresholds of the quality mode is missed. -/
structure StrategyInput.Weak (i : StrategyInput) (cfg : StrategyConfig) : Prop where
  ready : i.Ready cfg
  reduced : i.fair cfg + cfg.reducedEdge ≤ i.probability ∧ cfg.reducedMinConfidence ≤ i.confidence
  below : match cfg.mode with
    | .quality => cfg.minConfidence ≤ i.confidence ∧ i.probability < i.fair cfg + cfg.qualityEdge
    | .highFrequency => i.probability < i.fair cfg + cfg.qualityEdge ∨ i.confidence < cfg.minConfidence
    | .conservative => False

theorem weak_iff (hextra : 0 ≤ cfg.conservativeExtra) :
    i.Weak cfg ↔ (evaluateStrategy i cfg).decision = .enter ∧
      (i.probability < i.fair cfg + cfg.qualityEdge ∨ i.confidence < cfg.minConfidence) := by
  rw [enter_iff]
  rcases hmode : cfg.mode with _ | _ | _
  · -- A full entry meets the older thresholds, so only the reduced one is left.
    constructor
    · rintro ⟨hready, ⟨hedge, hconf⟩, hbelow⟩
      rw [hmode] at hbelow
      refine ⟨⟨hready, ?_, Or.inr ⟨?_, hedge, hconf⟩⟩, Or.inl hbelow.2⟩
      · simpa only [StrategyConfig.minConf, hmode] using hbelow.1
      · rw [hmode]
        exact StrategyMode.noConfusion
    · rintro ⟨⟨hready, hconfident, hedge⟩, hbelow⟩
      simp only [StrategyConfig.minConf, StrategyConfig.edge, hmode] at hconfident hedge
      have hlow := hbelow.resolve_right (not_lt_of_ge hconfident)
      obtain ⟨-, hreduced⟩ := hedge.resolve_left (not_le_of_gt hlow)
      refine ⟨hready, hreduced, ?_⟩
      rw [hmode]
      exact ⟨hconfident, hlow⟩
  · constructor
    · rintro ⟨hready, ⟨hedge, hconf⟩, hbelow⟩
      rw [hmode] at hbelow
      refine ⟨⟨hready, ?_, Or.inl ?_⟩, hbelow⟩
      · simpa only [StrategyConfig.minConf, hmode] using hconf
      · simpa only [StrategyConfig.edge, hmode] using hedge
    · rintro ⟨⟨hready, hconfident, hedge⟩, hbelow⟩
      simp only [StrategyConfig.minConf, StrategyConfig.edge, hmode] at hconfident hedge
      refine ⟨hready, ⟨hedge.elim id fun h => h.2.1, hconfident⟩, ?_⟩
      rw [hmode]
      exact hbelow
  · -- The conservative mode asks for more than the older gate.
    constructor
    · rintro ⟨-, -, hbelow⟩
      rw [hmode] at hbelow
      exact hbelow.elim
    · rintro ⟨⟨-, hconfident, hedge⟩, hbelow⟩
      have hfull := hedge.resolve_right fun h => h.1 hmode
      simp only [StrategyConfig.minConf, StrategyConfig.edge, hmode] at hconfident hfull
      rcases hbelow with hlow | hlow
      · linarith
      · exact absurd hlow (not_lt_of_ge hconfident)

/-- The older gate changes a decision exactly if it is an entry on less than it asks for. -/
theorem decision_eq_iff (htarget : 1 < opt.defaultTarget) (hedge : 0 ≤ opt.edge adaptive) :
    opt.decision adaptive sig observed =
        (evaluateStrategy (opt.strategyInput sig observed) (opt.strategyConfig adaptive)).decision ↔
      ¬(opt.strategyInput sig observed).Weak (opt.strategyConfig adaptive) := by
  have hextra : 0 ≤ (opt.strategyConfig adaptive).conservativeExtra := by
    norm_num [ClientOptions.strategyConfig]
  have hfair : (opt.strategyInput sig observed).fair (opt.strategyConfig adaptive) = 1 / opt.defaultTarget :=
    fair_strategyInput htarget
  rw [weak_iff hextra, hfair]
  by_cases hstrategy : (evaluateStrategy (opt.strategyInput sig observed) (opt.strategyConfig adaptive)).decision = .enter
  · have hsignal : 0 < sig.probability ∨ 0 < sig.confidence := (enter_iff.mp hstrategy).1.signal
    rw [hstrategy, decision_enter_iff, and_iff_right hstrategy, decisionFromSignal_enter_iff htarget,
      usedEdge_of_nonneg hedge, and_iff_right hsignal, eq_self_iff_true, true_and, not_or, not_lt, not_lt]
    exact Iff.rfl
  · refine iff_of_true ?_ fun h => hstrategy h.1
    unfold ClientOptions.decision
    exact if_neg hstrategy

/-! ### Entries -/

namespace SubmittingClient

variable {c : SubmittingClient} {engine : PredictionEngine} {req : PredictionRequest} {now : TimestampMs}
  {pr : PredictResult}

theorem response_of_ok (h : c.predict engine req = .ok pr) :
    (c.response engine adaptive req now).decision = c.options.decision adaptive pr.signal c.observed ∧
      (c.response engine adaptive req now).probability = pr.signal.probability ∧
      (c.response engine adaptive req now).confidence = pr.signal.confidence ∧
      (c.response engine adaptive req now).targetMult = pr.output.target := by
  rw [response, h]
  exact ⟨rfl, rfl, rfl, rfl⟩

theorem response_of_error {failure : EngineFailure} (h : c.predict engine req = .error failure) :
    (c.response engine adaptive req now).decision = .skip := by
  rw [response, h]

/-- After any calls of a client: a response that enters comes after enough finished rounds, its confidence is high
    enough, and its probability beats the fair one of its own target by the edge in force. -/
theorem enter_safe (initial : ClientOptions) (calls : List Call) (engine : PredictionEngine) (hecho : engine.Echoes)
    (adaptive : Option AdaptiveEdge) (req : PredictionRequest) (now : TimestampMs) :
    let c := after initial calls
    let resp := (c.submit engine adaptive req now).1
    1 < c.options.defaultTarget → resp.decision = .enter →
      c.options.warmMinSamples ≤ (calls.filter Observes).length ∧ c.options.minConfidence ≤ resp.confidence ∧
        1 / resp.targetMult + c.options.edge adaptive ≤ resp.probability := by
  intro c resp htarget henter
  rcases hpredict : c.predict engine req with failure | pr
  · have hskip : resp.decision = .skip := response_of_error hpredict
    rw [hskip] at henter
    cases henter
  obtain ⟨hdecision, hprobability, hconfidence, htargetMult⟩ :
      resp.decision = _ ∧ resp.probability = _ ∧ resp.confidence = _ ∧ resp.targetMult = _ := response_of_ok hpredict
  have htargets : resp.targetMult = c.options.defaultTarget := htargetMult.trans (hecho _ _ _ hpredict)
  rw [hdecision] at henter
  obtain ⟨hstrategy, hlegacy⟩ := decision_enter_iff.mp henter
  obtain ⟨hready, -⟩ := enter_iff.mp hstrategy
  obtain ⟨-, hedge, hconf⟩ := (decisionFromSignal_enter_iff htarget).mp hlegacy
  refine ⟨?_, hconfidence ▸ hconf, ?_⟩
  · rw [← observed_after initial calls]
    exact hready.warm
  · rw [htargets, hprobability]
    have hle : c.options.edge adaptive ≤ usedEdge (c.options.edge adaptive) := le_usedEdge
    linarith

/-- An engine with this signal whatever it has observed, about the target that it is asked for. -/
def constantEngine (signal : PredictionSignal) : PredictionEngine := fun _ req =>
  .ok { signal, output := { target := req.target } }

theorem constantEngine_echoes (signal : PredictionSignal) : (constantEngine signal).Echoes := by
  rintro samples req result h
  cases h
  rfl

def oneRound : List Call := [.observeEnd { kind := .end, roundId := "r1", crashPoint := 2, valid := true } 1000]

def nextRound : PredictionRequest := { targetRoundId := "r2", gameId := "r1", correlationId := "k" }

theorem enter_safe_oneRound :
    1 ≤ (oneRound.filter Observes).length ∧ (55 / 100 : Rat) ≤ 8 / 10 ∧ (1 / (13 / 10) + 2 / 100 : Rat) ≤ 9 / 10 := by
  let signal : PredictionSignal := { probability := 9 / 10, confidence := 8 / 10 }
  refine enter_safe { warmMinSamples := 1 } oneRound (constantEngine signal) (constantEngine_echoes signal) none
    nextRound 2000 ?_ ?_
  · show (1 : Rat) < 13 / 10
    norm_num
  · show ClientOptions.decision { warmMinSamples := 1 } none signal _ = .enter
    rw [observed_after]
    refine decision_enter_iff.mpr ⟨enter_iff.mpr ⟨⟨rfl, rfl, by decide, Or.inl ?_⟩, ?_, Or.inl ?_⟩, ?_⟩
    · norm_num [ClientOptions.strategyInput, signal]
    · norm_num [ClientOptions.strategyInput, ClientOptions.strategyConfig, StrategyConfig.minConf, signal]
    · norm_num [ClientOptions.strategyInput, ClientOptions.strategyConfig, ClientOptions.edge, StrategyConfig.edge,
        StrategyInput.fair, fairProbability, signal]
    · norm_num [decisionFromSignal, ClientOptions.edge, signal]

/-! ### The strategy alone -/

/-- The response has the decision of the strategy, when the engine has answered. -/
def StrategyDecides (c : SubmittingClient) (engine : PredictionEngine) (adaptive : Option AdaptiveEdge)
    (req : PredictionRequest) (now : TimestampMs) : Prop :=
  ∀ pr, c.predict engine req = .ok pr → (c.submit engine adaptive req now).1.decision =
    (evaluateStrategy (c.options.strategyInput pr.signal c.observed) (c.options.strategyConfig adaptive)).decision

/-- The strategy decides exactly if it does not enter on less than the older gate asks for. -/
theorem strategyDecides_iff (c : SubmittingClient) (engine : PredictionEngine) (adaptive : Option AdaptiveEdge)
    (req : PredictionRequest) (now : TimestampMs) (htarget : 1 < c.options.defaultTarget)
    (hedge : 0 ≤ c.options.edge adaptive) :
    c.StrategyDecides engine adaptive req now ↔ ∀ pr, c.predict engine req = .ok pr →
      ¬(c.options.strategyInput pr.signal c.observed).Weak (c.options.strategyConfig adaptive) := by
  refine forall_congr' fun pr => forall_congr' fun hpredict => ?_
  rw [← decision_eq_iff htarget hedge]
  exact iff_of_eq (congrArg (· = _) (response_of_ok hpredict).1)

/-- The signal of a reduced entry in the high frequency mode. -/
def reducedSignal : PredictionSignal := { probability := 1 / (13 / 10) + 6 / 1000, confidence := 1 / 2 }

/-- A client that needs no samples. -/
def highFrequency : SubmittingClient := { options := { strategyMode := .highFrequency, warmMinSamples := 0 } }

theorem strategyDecides_iff_highFrequency :
    highFrequency.StrategyDecides (constantEngine reducedSignal) none nextRound 2000 ↔
      ∀ pr, highFrequency.predict (constantEngine reducedSignal) nextRound = .ok pr →
        ¬(highFrequency.options.strategyInput pr.signal 0).Weak (highFrequency.options.strategyConfig none) :=
  strategyDecides_iff highFrequency (constantEngine reducedSignal) none nextRound 2000
    (by norm_num [highFrequency]) (by norm_num [highFrequency, ClientOptions.edge])

theorem not_strategyDecides_highFrequency :
    ¬highFrequency.StrategyDecides (constantEngine reducedSignal) none nextRound 2000 := by
  intro h
  have heq := h { signal := reducedSignal, output := { target := 13 / 10 } } rfl
  refine (decision_eq_iff ?_ ?_).mp heq ⟨⟨rfl, rfl, Nat.zero_le _, Or.inr ?_⟩, ⟨?_, ?_⟩, Or.inr ?_⟩
  · norm_num [highFrequency]
  · norm_num [highFrequency, ClientOptions.edge]
  · norm_num [ClientOptions.strategyInput, reducedSignal]
  · norm_num [highFrequency, ClientOptions.strategyInput, ClientOptions.strategyConfig, StrategyInput.fair,
      fairProbability, reducedSignal]
  · norm_num [highFrequency, ClientOptions.strategyInput, ClientOptions.strategyConfig, reducedSignal]
  · norm_num [highFrequency, ClientOptions.strategyInput, ClientOptions.strategyConfig, reducedSignal]

end SubmittingClient

/-! ### The order of signals and modes

A stronger signal is never worse, and each mode accepts what the stricter ones accept. -/

variable {i j : StrategyInput} {cfg : StrategyConfig}

/-- The same question with a signal at least as strong, after at least as many samples. -/
structure StrategyInput.AtMost (i j : StrategyInput) : Prop where
  probability : i.probability ≤ j.probability
  confidence : i.confidence ≤ j.confidence
  samplesSeen : i.samplesSeen ≤ j.samplesSeen
  targetMult : i.targetMult = j.targetMult
  modelStale : i.modelStale = j.modelStale
  entitlementOk : i.entitlementOk = j.entitlementOk

/-- The thresholds of the modes are in their order. -/
structure StrategyConfig.Graded (cfg : StrategyConfig) : Prop where
  edge : cfg.reducedEdge ≤ cfg.qualityEdge
  confidence : cfg.reducedMinConfidence ≤ cfg.minConfidence
  extra : 0 ≤ cfg.conservativeExtra

/-! ### Stronger signals -/

theorem StrategyInput.Ready.mono (h : i.Ready cfg) (hle : i.AtMost j) : j.Ready cfg where
  entitled := hle.entitlementOk ▸ h.entitled
  fresh := hle.modelStale ▸ h.fresh
  warm := h.warm.trans hle.samplesSeen
  signal := h.signal.imp (fun hp => hp.trans_le hle.probability) fun hc => hc.trans_le hle.confidence

theorem StrategyInput.Strong.mono (h : i.Strong cfg) (hle : i.AtMost j) : j.Strong cfg := by
  have hfair : j.fair cfg = i.fair cfg := by rw [StrategyInput.fair, StrategyInput.fair, hle.targetMult]
  refine ⟨h.confident.trans hle.confidence, ?_⟩
  rw [hfair]
  rcases h.edge with hfull | ⟨hmode, hreduced, hconf⟩
  · exact Or.inl (hfull.trans hle.probability)
  · exact Or.inr ⟨hmode, hreduced.trans hle.probability, hconf.trans hle.confidence⟩

theorem enter_mono (hle : i.AtMost j) (h : (evaluateStrategy i cfg).decision = .enter) :
    (evaluateStrategy j cfg).decision = .enter := by
  obtain ⟨hready, hstrong⟩ := enter_iff.mp h
  exact enter_iff.mpr ⟨hready.mono hle, hstrong.mono hle⟩

/-! ### Modes -/

/-- Whether there is a signal does not depend on the mode. -/
theorem StrategyInput.Ready.mode (h : i.Ready cfg) (mode : StrategyMode) : i.Ready { cfg with mode } :=
  ⟨h.entitled, h.fresh, h.warm, h.signal⟩

theorem enter_quality (hgraded : cfg.Graded) (h : (evaluateStrategy i { cfg with mode := .conservative }).decision = .enter) :
    (evaluateStrategy i { cfg with mode := .quality }).decision = .enter := by
  obtain ⟨hready, hstrong⟩ := enter_iff.mp h
  refine enter_iff.mpr ⟨hready.mode .quality, hstrong.confident, Or.inl ?_⟩
  have hfull := hstrong.edge.resolve_right fun hreduced => hreduced.1 rfl
  have hextra := hgraded.extra
  simp only [StrategyConfig.edge, StrategyInput.fair] at hfull ⊢
  linarith

theorem enter_highFrequency (hgraded : cfg.Graded) (h : (evaluateStrategy i { cfg with mode := .quality }).decision = .enter) :
    (evaluateStrategy i { cfg with mode := .highFrequency }).decision = .enter := by
  obtain ⟨hready, hstrong⟩ := enter_iff.mp h
  refine enter_iff.mpr ⟨hready.mode .highFrequency, hgraded.confidence.trans hstrong.confident, Or.inl ?_⟩
  have hedge := hgraded.edge
  rcases hstrong.edge with hfull | ⟨-, hreduced, -⟩
  · simp only [StrategyConfig.edge, StrategyInput.fair] at hfull ⊢
    linarith
  · exact hreduced

/-- No rise of probability, confidence or samples turns an entry into a skip, whatever the configuration; and with the
    thresholds in order an entry of the conservative mode is one of the quality mode, and that one of the high
    frequency mode. -/
theorem evaluateStrategy_ordered (cfg : StrategyConfig) :
    (∀ i j : StrategyInput, i.AtMost j → (evaluateStrategy i cfg).decision = .enter →
      (evaluateStrategy j cfg).decision = .enter) ∧
    (cfg.Graded → ∀ i : StrategyInput,
      ((evaluateStrategy i { cfg with mode := .conservative }).decision = .enter →
        (evaluateStrategy i { cfg with mode := .quality }).decision = .enter) ∧
      ((evaluateStrategy i { cfg with mode := .quality }).decision = .enter →
        (evaluateStrategy i { cfg with mode := .highFrequency }).decision = .enter)) :=
  ⟨fun _ _ => enter_mono, fun hgraded _ => ⟨enter_quality hgraded, enter_highFrequency hgraded⟩⟩

/-- A conservative entry with the default thresholds, and a stronger signal in the quality mode. -/
theorem evaluateStrategy_ordered_default :
    (evaluateStrategy { probability := 95 / 100, confidence := 8 / 10, samplesSeen := 30 } { mode := .quality }).decision =
      .enter := by
  have hconservative : (evaluateStrategy { probability := 9 / 10, confidence := 7 / 10, samplesSeen := 20 }
      { mode := .conservative }).decision = .enter := by
    refine enter_iff.mpr ⟨⟨rfl, rfl, Nat.le_refl 20, Or.inl (by norm_num)⟩, ?_, Or.inl ?_⟩
    · norm_num [StrategyConfig.minConf]
    · norm_num [StrategyInput.fair, fairProbability, StrategyConfig.edge]
  have hquality := ((evaluateStrategy_ordered {}).2 ⟨by norm_num, by norm_num, by norm_num⟩ _).1 hconservative
  refine (evaluateStrategy_ordered {}).1 _ _ ?_ hquality
  exact ⟨by norm_num, by norm_num, by norm_num, rfl, rfl, rfl⟩

end CrashCore
