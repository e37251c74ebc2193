import CrashCore.Common.Types
import CrashCore.Library.Run
import CrashCore.Validation.PredictionRegistry
import Mathlib.Data.Finset.Filter
import Mathlib.Data.Finset.Insert

/-! Outcomes and their tallies (`validation/outcome.hpp`, `validation/win_loss.hpp`), the live validator
(`validation/live_validator.hpp`, `validation/outcome_matcher.hpp`) and its concurrent callers. -/

namespace CrashCore

def makeOutcome (pred : PredictionEvent) (actualMult : Double) (now : TimestampMs) : Outcome :=
  let o : Outcome :=
    { predictionId := pred.predictionId
      roundId := pred.targetRoundId
      actualMult
      targetMult := pred.targetMult
      resolvedAtMs := now }
  if pred.decision ≠ .enter then { o with result := .void, isWin := false }
  else if pred.targetMult ≤ actualMult ∧ 0 < pred.targetMult then { o with result := .win, isWin := true }
  else { o with result := .loss, isWin := false }

structure WinLossStats where
  wins : Nat := 0
  losses : Nat := 0
  voids : Nat := 0
  stale : Nat := 0
  sumConfidence : Double := 0

namespace WinLossStats

def record (w : WinLossStats) (o : Outcome) (confidence : Double) : WinLossStats :=
  let w := { w with sumConfidence := .nearest (w.sumConfidence + confidence) }
  match o.result with
  | .win => { w with wins := w.wins + 1 }
  | .loss => { w with losses := w.losses + 1 }
  | .void => { w with voids := w.voids + 1 }
  | .stale => { w with stale := w.stale + 1 }
  | _ => w

/-- The counter of a result. -/
def tally (w : WinLossStats) : PredictionOutcome → Nat
  | .win => w.wins
  | .loss => w.losses
  | .void => w.voids
  | .stale => w.stale
  | .pending | .duplicate => 0

/-- A result that has a counter. -/
def Counted (r : PredictionOutcome) : Prop := r ≠ .pending ∧ r ≠ .duplicate

instance : DecidablePred Counted := fun _ => inferInstanceAs (Decidable (_ ∧ _))

theorem tally_record (w : WinLossStats) (o : Outcome) (confidence : Double) {r : PredictionOutcome} (hr : Counted r) :
    (w.record o confidence).tally r = w.tally r + if o.result = r then 1 else 0 := by
  unfold record
  cases r with
  | pending => exact absurd rfl hr.1
  | duplicate => exact absurd rfl hr.2
  | win | loss | void | stale => cases o.result <;> rfl

end WinLossStats

/-! ### What an outcome says -/

variable (pred : PredictionEvent) (actualMult : Double) (now : TimestampMs)

theorem makeOutcome_fields : (makeOutcome pred actualMult now).predictionId = pred.predictionId ∧
    (makeOutcome pred actualMult now).roundId = pred.targetRoundId ∧
    (makeOutcome pred actualMult now).actualMult = actualMult ∧
    (makeOutcome pred actualMult now).targetMult = pred.targetMult := by
  unfold makeOutcome
  split
  · exact ⟨rfl, rfl, rfl, rfl⟩
  · split <;> exact ⟨rfl, rfl, rfl, rfl⟩

/-- The crash point reaches the target of a prediction that enters. -/
def Wins : Prop := pred.decision = .enter ∧ pred.targetMult ≤ actualMult ∧ 0 < pred.targetMult

theorem makeOutcome_result : (makeOutcome pred actualMult now).result =
    if pred.decision ≠ .enter then .void else if pred.targetMult ≤ actualMult ∧ 0 < pred.targetMult then .win else .loss := by
  unfold makeOutcome
  split
  · rfl
  · split <;> rfl

theorem makeOutcome_win_iff : (makeOutcome pred actualMult now).result = .win ↔ Wins pred actualMult := by
  rw [makeOutcome_result]
  by_cases he : pred.decision = .enter <;> by_cases hw : pred.targetMult ≤ actualMult ∧ 0 < pred.targetMult <;>
    simp [Wins, he, hw]

theorem makeOutcome_loss_iff : (makeOutcome pred actualMult now).result = .loss ↔
    pred.decision = .enter ∧ ¬Wins pred actualMult := by
  rw [makeOutcome_result]
  by_cases he : pred.decision = .enter <;> by_cases hw : pred.targetMult ≤ actualMult ∧ 0 < pred.targetMult <;>
    simp [Wins, he, hw]

theorem makeOutcome_void_iff : (makeOutcome pred actualMult now).result = .void ↔ pred.decision ≠ .enter := by
  rw [makeOutcome_result]
  by_cases he : pred.decision = .enter <;> by_cases hw : pred.targetMult ≤ actualMult ∧ 0 < pred.targetMult <;>
    simp [he, hw]

theorem makeOutcome_isWin : (makeOutcome pred actualMult now).isWin = true ↔
    (makeOutcome pred actualMult now).result = .win := by
  unfold makeOutcome
  by_cases he : pred.decision = .enter <;> by_cases hw : pred.targetMult ≤ actualMult ∧ 0 < pred.targetMult <;>
    simp [he, hw]

/-! ### The validator -/

structure OutcomeMatcher where
  stats : WinLossStats := {}
  matched : Nat := 0
  unmatchedEnds : Nat := 0
  voids : Nat := 0
  stales : Nat := 0

/-- The counters of one turn of the loop in `match`. -/
def OutcomeMatcher.count (m : OutcomeMatcher) (o : Outcome) (confidence : Double) : OutcomeMatcher :=
  let m := { m with matched := m.matched + 1 }
  match o.result with
  | .void => { m with voids := m.voids + 1 }
  | .stale => { m with stales := m.stales + 1 }
  | _ => { m with stats := m.stats.record o confidence }

structure LiveValidator where
  registry : PredictionRegistry := {}
  matcher : OutcomeMatcher := {}
  stats : WinLossStats := {}
  resolvedEnds : Finset GameId := ∅
  resolvedOrder : List GameId := []
  matchedRounds : Nat := 0
  noPending : Nat := 0
  duplicateEnds : Nat := 0

inductive ValidateKind
  | matched | noPending | bgArrivedLate | duplicateEnd | invalid
deriving DecidableEq, Repr

structure ValidateGameEndResult where
  kind : ValidateKind := .invalid
  outcomes : List Outcome := []
  gameId : GameId := ""
  detail : String := ""

namespace LiveValidator

def maxResolved : Nat := 5000

/-- The oldest rounds beyond `maxResolved` leave `resolved_order_`, `resolved_map_` and `resolved_ends_`. -/
def trimResolved (v : LiveValidator) : LiveValidator :=
  let oldest := v.resolvedOrder.take (v.resolvedOrder.length - maxResolved)
  { v with
    resolvedOrder := v.resolvedOrder.drop (v.resolvedOrder.length - maxResolved)
    resolvedEnds := v.resolvedEnds.filter (· ∉ oldest) }

/-- The first part of `onGameEnd`: the round is marked as resolved, unless it is a duplicate. -/
def acceptEnd (v : LiveValidator) (gameId : GameId) : LiveValidator × Bool :=
  if gameId ∈ v.resolvedEnds then ({ v with duplicateEnds := v.duplicateEnds + 1 }, false)
  else
    let v :=
      if gameId ∈ v.resolvedOrder then { v with resolvedOrder := v.resolvedOrder.erase gameId ++ [gameId] }
      else ({ v with resolvedOrder := v.resolvedOrder ++ [gameId] } : LiveValidator).trimResolved
    ({ v with resolvedEnds := insert gameId v.resolvedEnds }, true)

theorem acceptEnd_rest (v : LiveValidator) (gameId : GameId) :
    (v.acceptEnd gameId).1.registry = v.registry ∧ (v.acceptEnd gameId).1.stats = v.stats := by
  unfold acceptEnd
  split
  · exact ⟨rfl, rfl⟩
  · split <;> exact ⟨rfl, rfl⟩

end LiveValidator

/-! ### The callers

`onGameEnd` runs in stages, and calls of the other threads may come between any two of them. The counters of
one outcome are updated at once. -/

namespace ValidatorCalls

inductive Stage
  /-- The round is marked as resolved. -/
  | accepted
  /-- In the loop of `match`: what is left to do, and the outcomes so far. -/
  | matching (todo : List PredictionEvent) (outcomes : List Outcome)
  /-- In the loop over `stats_.record`. -/
  | recording (outcomes todo : List Outcome)
deriving DecidableEq

/-- A call of `onGameEnd` that has not returned. -/
structure EndCall where
  endEvent : CrashEvent
  stage : Stage
deriving DecidableEq

/-- An outcome given to the handler, with the prediction and the End it was made from. -/
structure Emission where
  prediction : PredictionEvent
  endEvent : CrashEvent
  outcome : Outcome

structure State where
  validator : LiveValidator := {}
  calls : List EndCall := []
  /-- The successful registrations. -/
  registered : List PredictionEvent := []
  emitted : List Emission := []
  returned : List ValidateGameEndResult := []

inductive Act
  | registerPrediction (ev : PredictionEvent)
  | expireStale (maxAgeMs : Int) (now : TimestampMs)
  | onGameEnd (endEvent : CrashEvent)
  /-- A call of `onGameEnd` goes on to its next stage. -/
  | resume (c : EndCall) (now : TimestampMs)

def onGameEnd (s : State) (e : CrashEvent) : State :=
  if ¬e.IsValidEnd then { s with returned := s.returned ++ [{ detail := "not a valid end event" }] }
  else if e.endedRound = "" then { s with returned := s.returned ++ [{ detail := "missing gameId" }] }
  else
    let (validator, fresh) := s.validator.acceptEnd e.endedRound
    if fresh then { s with validator, calls := ⟨e, .accepted⟩ :: s.calls }
    else
      { s with
        validator
        returned := s.returned ++ [{ kind := .duplicateEnd, gameId := e.endedRound, detail := "duplicate end" }] }

/-- `stats_.record` is plain and takes no lock, so a step of it is whole only where one thread calls `onGameEnd`, as in the
    application. -/
def resume (s : State) (c : EndCall) (now : TimestampMs) : State :=
  let v := s.validator
  let rest := s.calls.erase c
  let round := c.endEvent.endedRound
  match c.stage with
  | .accepted =>
    let (preds, registry) := v.registry.takeForRound round
    { s with validator := { v with registry }, calls := ⟨c.endEvent, .matching preds []⟩ :: rest }
  | .matching (p :: todo) outcomes =>
    let o := makeOutcome p c.endEvent.crashPoint now
    { s with
      validator := { v with matcher := v.matcher.count o p.confidence }
      calls := ⟨c.endEvent, .matching todo (outcomes ++ [o])⟩ :: rest
      emitted := s.emitted ++ [⟨p, c.endEvent, o⟩] }
  | .matching [] outcomes =>
    let unmatched := if outcomes = [] then v.matcher.unmatchedEnds + 1 else v.matcher.unmatchedEnds
    { s with
      validator := { v with matcher := { v.matcher with unmatchedEnds := unmatched } }
      calls := ⟨c.endEvent, .recording outcomes outcomes⟩ :: rest }
  | .recording outcomes (o :: todo) =>
    { s with
      validator := { v with stats := v.stats.record o 0 }
      calls := ⟨c.endEvent, .recording outcomes todo⟩ :: rest }
  | .recording [] [] =>
    { s with
      validator := { v with noPending := v.noPending + 1 }
      calls := rest
      returned := s.returned ++ [{ kind := .noPending, gameId := round, detail := "no pending prediction" }] }
  | .recording outcomes [] =>
    { s with
      validator := { v with matchedRounds := v.matchedRounds + 1 }
      calls := rest
      returned := s.returned ++ [{ kind := .matched, outcomes, gameId := round }] }

def step (s : State) : Act → Option State
  | .registerPrediction ev =>
    match s.validator.registry.registerPrediction ev with
    | (registry, .ok ()) =>
      some { s with validator := { s.validator with registry }, registered := s.registered ++ [ev] }
    | (registry, .error _) => some { s with validator := { s.validator with registry } }
  | .expireStale maxAgeMs now =>
    some { s with validator := { s.validator with registry := s.validator.registry.expireStale maxAgeMs now } }
  | .onGameEnd e => some (onGameEnd s e)
  | .resume c now => if c ∈ s.calls then some (resume s c now) else none

end ValidatorCalls
end CrashCore
