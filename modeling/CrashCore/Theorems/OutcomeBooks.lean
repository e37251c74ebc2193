import CrashCore.Library.LongestRun
import CrashCore.Theorems.SettlementSafety
import CrashCore.Validation.OutcomeBooks

/-! The books of the outcome handler over all runs of the validator's callers: the cooldown, the invariants, the metrics and
the statistics registry tell the wins, the losses and the losses in a row of the outcomes that were handed over. -/

namespace CrashCore
namespace OutcomeBooks
open Transition ValidatorCalls

variable {threshold ms : Int} {log : List (Outcome × TimestampMs)} {c : LossCooldownTracker} {o : Outcome}
  {now : TimestampMs}

/-- The wins and losses of a log. -/
def scored (log : List (Outcome × TimestampMs)) : List (Outcome × TimestampMs) :=
  log.filter fun n => n.1.result = .win ∨ n.1.result = .loss

/-- How many results of this kind there are at the end. -/
def inRow (r : PredictionOutcome) (log : List (Outcome × TimestampMs)) : Nat := (log.rtakeWhile (·.1.result = r)).length

/-- The log ends in losses, and in as many as the threshold asks for. -/
def Tired (threshold : Int) (log : List (Outcome × TimestampMs)) : Prop :=
  0 < inRow .loss log ∧ threshold ≤ inRow .loss log

instance : DecidablePred (Tired threshold) := fun _ => inferInstanceAs (Decidable (_ ∧ _))

def timeOf (n : Outcome × TimestampMs) : TimestampMs := if n.1.resolvedAtMs ≠ 0 then n.1.resolvedAtMs else n.2

/-- The time of the last loss, or zero. -/
def lastLoss (log : List (Outcome × TimestampMs)) : TimestampMs :=
  ((log.filter (·.1.result = .loss)).getLast?.map timeOf).getD 0

/-- The tracker is the one of this log. -/
structure Cools (threshold ms : Int) (log : List (Outcome × TimestampMs)) (c : LossCooldownTracker) : Prop where
  config : c.lossThreshold = threshold ∧ c.cooldownMs = ms
  wins : c.wins = log.countP (·.1.result = .win)
  losses : c.losses = log.countP (·.1.result = .loss)
  winsInRow : c.state.consecutiveWins = inRow .win (scored log)
  lossesInRow : c.state.consecutiveLosses = inRow .loss (scored log)
  lastLossMs : c.state.lastLossMs = lastLoss log
  active : c.state.active = decide (Tired threshold (scored log))
  untilMs : c.state.cooldownUntilMs = if c.state.active then lastLoss log + ms else 0
  activations : c.activations = (List.range ((scored log).length + 1)).countP fun k => Tired threshold ((scored log).take k)

theorem cools_initial : Cools threshold ms [] { lossThreshold := threshold, cooldownMs := ms } where
  config := ⟨rfl, rfl⟩
  wins := rfl
  losses := rfl
  winsInRow := rfl
  lossesInRow := rfl
  lastLossMs := rfl
  active := by simp [Tired, inRow, scored]
  untilMs := rfl
  activations := by simp [Tired, inRow, scored]

theorem inRow_concat (r : PredictionOutcome) (log : List (Outcome × TimestampMs)) (n : Outcome × TimestampMs) :
    inRow r (log ++ [n]) = if n.1.result = r then inRow r log + 1 else 0 := by
  unfold inRow
  rw [List.length_rtakeWhile_concat]
  simp only [decide_eq_true_eq]

theorem countP_take_concat {α : Type} (p : List α → Bool) (l : List α) (x : α) :
    (List.range ((l ++ [x]).length + 1)).countP (fun k => p ((l ++ [x]).take k)) =
      (List.range (l.length + 1)).countP (fun k => p (l.take k)) + if p (l ++ [x]) then 1 else 0 := by
  rw [List.length_append, List.length_singleton, List.range_succ, List.countP_append, List.countP_singleton,
    List.take_of_length_le (by simp)]
  congr 1
  refine List.countP_congr fun k hk => ?_
  rw [List.take_append_of_le_length (Nat.lt_succ_iff.mp (List.mem_range.mp hk))]

/-- An outcome that is neither a win nor a loss changes nothing. -/
theorem Cools.other (h : Cools threshold ms log c) (hwin : o.result ≠ .win) (hloss : o.result ≠ .loss) :
    Cools threshold ms (log ++ [(o, now)]) (c.noteOutcome o now) := by
  have hsame : c.noteOutcome o now = c := by
    unfold LossCooldownTracker.noteOutcome
    cases hr : o.result <;> first | rfl | exact absurd hr hwin | exact absurd hr hloss
  have hscored : scored (log ++ [(o, now)]) = scored log := by simp [scored, List.filter_append, hwin, hloss]
  have hlast : lastLoss (log ++ [(o, now)]) = lastLoss log := by simp [lastLoss, List.filter_append, hloss]
  rw [hsame]
  refine ⟨h.config, ?_, ?_, ?_, ?_, ?_, ?_, ?_, ?_⟩
  · simpa [List.countP_append, hwin] using h.wins
  · simpa [List.countP_append, hloss] using h.losses
  · rw [hscored]; exact h.winsInRow
  · rw [hscored]; exact h.lossesInRow
  · rw [hlast]; exact h.lastLossMs
  · rw [hscored]; exact h.active
  · rw [hlast]; exact h.untilMs
  · rw [hscored]; exact h.activations

theorem Cools.win (h : Cools threshold ms log c) (hwin : o.result = .win) :
    Cools threshold ms (log ++ [(o, now)]) (c.noteOutcome o now) := by
  have hscored : scored (log ++ [(o, now)]) = scored log ++ [(o, now)] := by simp [scored, List.filter_append, hwin]
  have hlast : lastLoss (log ++ [(o, now)]) = lastLoss log := by simp [lastLoss, List.filter_append, hwin]
  have hzero : inRow .loss (scored log ++ [(o, now)]) = 0 := by simp [inRow_concat, hwin]
  have hrested : ¬Tired threshold (scored log ++ [(o, now)]) := fun htired => by simpa [hzero] using htired.1
  simp only [LossCooldownTracker.noteOutcome, hwin]
  refine ⟨h.config, ?_, ?_, ?_, ?_, ?_, ?_, rfl, ?_⟩
  · simpa [List.countP_append, hwin] using h.wins
  · simpa [List.countP_append, hwin] using h.losses
  · rw [hscored, inRow_concat, if_pos hwin]
    exact congrArg (· + 1) h.winsInRow
  · rw [hscored, hzero]
  · rw [hlast]
    exact h.lastLossMs
  · rw [hscored]
    exact (decide_eq_false hrested).symm
  · rw [hscored, countP_take_concat (fun l => decide (Tired threshold l)), decide_eq_false hrested]
    exact h.activations

theorem Cools.loss (h : Cools threshold ms log c) (hloss : o.result = .loss) :
    Cools threshold ms (log ++ [(o, now)]) (c.noteOutcome o now) := by
  have hscored : scored (log ++ [(o, now)]) = scored log ++ [(o, now)] := by simp [scored, List.filter_append, hloss]
  have hlast : lastLoss (log ++ [(o, now)]) = timeOf (o, now) := by simp [lastLoss, List.filter_append, hloss]
  have hone : inRow .loss (scored log ++ [(o, now)]) = inRow .loss (scored log) + 1 := by simp [inRow_concat, hloss]
  have hwins : c.wins = (log ++ [(o, now)]).countP (·.1.result = .win) := by
    simpa [List.countP_append, hloss] using h.wins
  have hlosses : c.losses + 1 = (log ++ [(o, now)]).countP (·.1.result = .loss) := by
    simpa [List.countP_append, hloss] using h.losses
  have hwinsInRow : 0 = inRow .win (scored (log ++ [(o, now)])) := by simp [hscored, inRow_concat, hloss]
  have hlossesInRow : c.state.consecutiveLosses + 1 = inRow .loss (scored (log ++ [(o, now)])) := by
    rw [hscored, hone, h.lossesInRow]
  simp only [LossCooldownTracker.noteOutcome, hloss, h.config.1, h.config.2]
  by_cases hmany : threshold ≤ ((c.state.consecutiveLosses + 1 : Nat) : Int)
  · have htired : Tired threshold (scored (log ++ [(o, now)])) :=
      ⟨hlossesInRow ▸ Nat.succ_pos _, hlossesInRow ▸ hmany⟩
    rw [if_pos hmany]
    refine ⟨⟨rfl, rfl⟩, hwins, hlosses, hwinsInRow, hlossesInRow, hlast.symm, (decide_eq_true htired).symm, ?_, ?_⟩
    · rw [hlast]
      rfl
    · rw [hscored] at htired ⊢
      rw [countP_take_concat (fun l => decide (Tired threshold l)), decide_eq_true htired]
      exact congrArg (· + 1) h.activations
  · have hrested : ¬Tired threshold (scored (log ++ [(o, now)])) := fun htired => hmany (hlossesInRow ▸ htired.2)
    -- Fewer losses do not reach the threshold either.
    have hbefore : c.state.active = false := by
      rw [h.active, decide_eq_false_iff_not]
      intro htired
      have hle := htired.2
      rw [← h.lossesInRow] at hle
      omega
    rw [if_neg hmany]
    refine ⟨⟨rfl, rfl⟩, hwins, hlosses, hwinsInRow, hlossesInRow, hlast.symm, ?_, ?_, ?_⟩
    · rw [decide_eq_false hrested]
      exact hbefore
    · have huntil := h.untilMs
      rw [hbefore] at huntil
      simpa [hbefore] using huntil
    · rw [hscored] at hrested ⊢
      rw [countP_take_concat (fun l => decide (Tired threshold l)), decide_eq_false hrested]
      exact h.activations

theorem Cools.note (h : Cools threshold ms log c) (o : Outcome) (now : TimestampMs) :
    Cools threshold ms (log ++ [(o, now)]) (c.noteOutcome o now) := by
  by_cases hwin : o.result = .win
  · exact h.win hwin
  by_cases hloss : o.result = .loss
  · exact h.loss hloss
  exact h.other hwin hloss

/-! ### Runs -/

/-- An outcome as the validator makes it breaks no invariant but that of its id. -/
theorem outcomeViolations_makeOutcome (p : PredictionEvent) (actualMult : Double) (now : TimestampMs) :
    InvariantChecker.outcomeViolations (makeOutcome p actualMult now) =
      if p.predictionId = "" then [⟨.outcomeRequiresPrediction, "empty predictionId", p.targetRoundId⟩] else [] := by
  obtain ⟨hid, hround, hactual, htarget⟩ := makeOutcome_fields p actualMult now
  have hwin : ¬((makeOutcome p actualMult now).result = .win ∧ 0 < p.targetMult ∧ actualMult < p.targetMult) := by
    rintro ⟨hwin, -, hlt⟩
    exact absurd ((makeOutcome_win_iff ..).mp hwin).2.1 (not_le.mpr hlt)
  have hloss : ¬((makeOutcome p actualMult now).result = .loss ∧ 0 < p.targetMult ∧ p.targetMult ≤ actualMult) := by
    rintro ⟨hloss, hpos, hle⟩
    obtain ⟨henter, hnot⟩ := (makeOutcome_loss_iff ..).mp hloss
    exact hnot ⟨henter, hle, hpos⟩
  simp only [InvariantChecker.outcomeViolations, hid, hround, hactual, htarget, if_neg hwin, if_neg hloss, List.append_nil]

theorem acceptEnd_matcher (v : LiveValidator) (gameId : GameId) : (v.acceptEnd gameId).1.matcher = v.matcher := by
  unfold LiveValidator.acceptEnd
  split
  · rfl
  · split <;> rfl

/-- A step makes no outcome, or one. -/
theorem emitted_of_step {v w : ValidatorCalls.State} {a : Act} (hs : ValidatorCalls.step v a = some w) :
    (w.emitted = v.emitted ∧ w.validator.matcher.stats = v.validator.matcher.stats) ∨
      ∃ p e atMs, w.emitted = v.emitted ++ [⟨p, e, makeOutcome p e.crashPoint atMs⟩] ∧
        w.validator.matcher.stats = (v.validator.matcher.count (makeOutcome p e.crashPoint atMs) p.confidence).stats := by
  cases a with
  | registerPrediction ev =>
    simp only [ValidatorCalls.step] at hs
    split at hs <;> cases hs <;> exact .inl ⟨rfl, rfl⟩
  | expireStale maxAgeMs now =>
    cases hs
    exact .inl ⟨rfl, rfl⟩
  | onGameEnd e =>
    cases hs
    refine .inl ?_
    unfold onGameEnd
    split
    · exact ⟨rfl, rfl⟩
    · split
      · exact ⟨rfl, rfl⟩
      · have hmatcher := congrArg OutcomeMatcher.stats (acceptEnd_matcher v.validator e.endedRound)
        dsimp only
        split <;> exact ⟨rfl, hmatcher⟩
  | resume c now =>
    rw [ValidatorCalls.step, Option.ite_none_right_eq_some] at hs
    obtain ⟨-, hs⟩ := hs
    obtain rfl := Option.some.inj hs
    obtain ⟨e, stage⟩ := c
    rcases stage with _ | ⟨_ | ⟨p, todo⟩, outcomes⟩ | ⟨outcomes, todo⟩
    · exact .inl ⟨rfl, rfl⟩
    · exact .inl ⟨rfl, rfl⟩
    · exact .inr ⟨p, e, now, rfl, rfl⟩
    · rcases todo with _ | ⟨o, todo⟩
      · rcases outcomes with _ | ⟨o, outcomes⟩ <;> exact .inl ⟨rfl, rfl⟩
      · exact .inl ⟨rfl, rfl⟩

/-- The books agree with each other and with the outcomes. -/
structure Agree (threshold ms : Int) (s : State) : Prop where
  noted : s.noted.map (·.1) = settled s.calls
  cools : Cools threshold ms s.noted s.books.cooldown
  wins : s.calls.validator.matcher.stats.wins = countOf .win (settled s.calls) ∧
    s.books.outcomesWin = countOf .win (settled s.calls) ∧ s.books.globalStats.wins = countOf .win (settled s.calls)
  losses : s.calls.validator.matcher.stats.losses = countOf .loss (settled s.calls) ∧
    s.books.outcomesLoss = countOf .loss (settled s.calls) ∧ s.books.globalStats.losses = countOf .loss (settled s.calls)
  violations : s.books.invariants.violations = (settled s.calls).countP (·.predictionId = "")

/-- The counts of a note, which depend on the result alone. -/
theorem note_counts (b : OutcomeBooks) (p : PredictionEvent) (actualMult : Double) (atMs now : TimestampMs) :
    let o := makeOutcome p actualMult atMs
    (b.note o now).cooldown = b.cooldown.noteOutcome o now ∧
      (b.note o now).outcomesWin = b.outcomesWin + (if o.result = .win then 1 else 0) ∧
      (b.note o now).globalStats.wins = b.globalStats.wins + (if o.result = .win then 1 else 0) ∧
      (b.note o now).outcomesLoss = b.outcomesLoss + (if o.result = .loss then 1 else 0) ∧
      (b.note o now).globalStats.losses = b.globalStats.losses + (if o.result = .loss then 1 else 0) ∧
      (b.note o now).invariants.violations = b.invariants.violations + if o.predictionId = "" then 1 else 0 := by
  have hviolations := outcomeViolations_makeOutcome p actualMult atMs
  have hid := (makeOutcome_fields p actualMult atMs).1
  have hisWin := makeOutcome_isWin p actualMult atMs
  generalize makeOutcome p actualMult atMs = o at hviolations hid hisWin
  have hcount : (InvariantChecker.outcomeViolations o).length = if o.predictionId = "" then 1 else 0 := by
    rw [hviolations, hid]
    split <;> rfl
  unfold note
  by_cases hwin : o.result = .win
  · simp [hisWin.mpr hwin, hwin, hcount, InvariantChecker.checkOutcome, StatisticsRegistry.noteOutcome]
  · have hfalse : o.isWin = false := by simpa using fun h => hwin (hisWin.mp h)
    by_cases hloss : o.result = .loss <;>
      simp [hfalse, hwin, hloss, hcount, InvariantChecker.checkOutcome, StatisticsRegistry.noteOutcome]

theorem count_counts (m : OutcomeMatcher) (o : Outcome) (confidence : Double) :
    (m.count o confidence).stats.wins = m.stats.wins + (if o.result = .win then 1 else 0) ∧
      (m.count o confidence).stats.losses = m.stats.losses + if o.result = .loss then 1 else 0 := by
  unfold OutcomeMatcher.count WinLossStats.record
  cases o.result <;> exact ⟨rfl, rfl⟩

theorem Agree.step {s t : State} (h : Agree threshold ms s) {a : Act × TimestampMs} (hs : step s a = some t) :
    Agree threshold ms t := by
  obtain ⟨w, hw, hs⟩ := Option.bind_eq_some_iff.mp hs
  obtain rfl := Option.some.inj hs
  rcases emitted_of_step hw with ⟨hsame, hstats⟩ | ⟨p, e, atMs, hnew, hstats⟩
  · have hsettled : settled w = settled s.calls := by rw [settled, hsame, settled]
    simp only [hsame, List.drop_length, List.map_nil, List.foldl_nil, List.append_nil]
    exact ⟨by rw [hsettled]; exact h.noted, h.cools, by rw [hsettled, hstats]; exact h.wins,
      by rw [hsettled, hstats]; exact h.losses, by rw [hsettled]; exact h.violations⟩
  · have hsettled : settled w = settled s.calls ++ [makeOutcome p e.crashPoint atMs] := by simp [settled, hnew]
    have hdrop : w.emitted.drop s.calls.emitted.length = [⟨p, e, makeOutcome p e.crashPoint atMs⟩] := by simp [hnew]
    obtain ⟨hcooldown, hwin, hstatWin, hloss, hstatLoss, hviolations⟩ := note_counts s.books p e.crashPoint atMs a.2
    obtain ⟨hmatcherWin, hmatcherLoss⟩ :=
      count_counts s.calls.validator.matcher (makeOutcome p e.crashPoint atMs) p.confidence
    simp only [hdrop, List.map_cons, List.map_nil, List.foldl_cons, List.foldl_nil]
    generalize makeOutcome p e.crashPoint atMs = o at *
    have hcount (r : PredictionOutcome) : countOf r (settled s.calls ++ [o]) =
        countOf r (settled s.calls) + if o.result = r then 1 else 0 := by
      simp [countOf, List.countP_append, List.countP_singleton]
    refine ⟨by simp [hsettled, h.noted], ?_, ?_, ?_, ?_⟩
    · dsimp only
      rw [hcooldown]
      exact h.cools.note o a.2
    · simp only [hsettled, hcount, hstats, hmatcherWin, hwin, hstatWin, h.wins.1, h.wins.2.1, h.wins.2.2, and_self]
    · simp only [hsettled, hcount, hstats, hmatcherLoss, hloss, hstatLoss, h.losses.1, h.losses.2.1, h.losses.2.2, and_self]
    · simp only [hsettled, hviolations, h.violations, List.countP_append, List.countP_singleton, decide_eq_true_eq]

/-- However registrations, expiries and any number of `onGameEnd` calls interleave, the handler has seen each outcome once,
    the matcher, the metrics and the statistics registry have counted the same wins and losses, the invariant checker has
    found nothing but outcomes without an id, and the cooldown is that of the losses at the end of the log. -/
theorem books_agree {s : State} (hr : Reaches step anyStep (initial threshold ms) s) :
    Agree threshold ms s ∧
      ∀ now, s.books.cooldown.inCooldown now = true ↔ Tired threshold (scored s.noted) ∧ now < lastLoss s.noted + ms := by
  have h : Agree threshold ms s := by
    refine hr.invariant ⟨rfl, cools_initial, ⟨rfl, rfl, rfl⟩, ⟨rfl, rfl, rfl⟩, rfl⟩ fun _ _ _ h _ hs => h.step hs
  refine ⟨h, fun now => ?_⟩
  rw [LossCooldownTracker.inCooldown, h.cools.untilMs, h.cools.active]
  by_cases htired : Tired threshold (scored s.noted) <;> simp [htired]

/-- Two losing rounds with a threshold of two. -/
def twoLosses : List (Act × TimestampMs) :=
  let loser (id round : String) : PredictionEvent :=
    { predictionId := id, targetRoundId := round, decision := .enter, targetMult := 2 }
  let crash (round : String) : CrashEvent := { kind := .end, valid := true, gameId := round, crashPoint := 1 }
  [(.registerPrediction (loser "a" "7"), 0), (.registerPrediction (loser "b" "8"), 0), (.onGameEnd (crash "7"), 0),
    (.onGameEnd (crash "8"), 0), (.resume ⟨crash "8", .accepted⟩ 5, 5), (.resume ⟨crash "7", .accepted⟩ 6, 6),
    (.resume ⟨crash "7", .matching [loser "a" "7"] []⟩ 7, 7), (.resume ⟨crash "8", .matching [loser "b" "8"] []⟩ 9, 9)]

def afterTwoLosses : State := (run step (initial 2 100) twoLosses).getD {}

theorem books_agree_two : Agree 2 100 afterTwoLosses ∧ afterTwoLosses.books.cooldown.inCooldown 50 = true := by
  have hrun : run step (initial 2 100) twoLosses = some afterTwoLosses := rfl
  obtain ⟨hagree, hcooldown⟩ := books_agree (Reaches.of_run (meets_anyStep _ _) hrun)
  exact ⟨hagree, (hcooldown 50).mpr (by decide)⟩

end OutcomeBooks
end CrashCore
