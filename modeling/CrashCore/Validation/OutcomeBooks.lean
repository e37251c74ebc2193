import CrashCore.Validation.LiveValidator

/-! What the application's outcome handler writes down of each outcome (`application/application.hpp`): the losses in a row
(`validation/loss_cooldown.hpp`), the runtime invariants (`validation/invariants.hpp`), and the wins and losses of its
metrics and of the statistics registry (`api/statistics_server.hpp`). -/

namespace CrashCore

structure CooldownState where
  consecutiveLosses : Nat := 0
  consecutiveWins : Nat := 0
  lastLossMs : TimestampMs := 0
  lastWinMs : TimestampMs := 0
  cooldownUntilMs : TimestampMs := 0
  active : Bool := false

structure LossCooldownTracker where
  lossThreshold : Int := 3
  cooldownMs : Int := 60000
  state : CooldownState := {}
  activations : Nat := 0
  wins : Nat := 0
  losses : Nat := 0

namespace LossCooldownTracker

def noteOutcome (t : LossCooldownTracker) (o : Outcome) (now : TimestampMs) : LossCooldownTracker :=
  let atMs := if o.resolvedAtMs ≠ 0 then o.resolvedAtMs else now
  match o.result with
  | .win =>
    { t with
      state := { t.state with
        consecutiveWins := t.state.consecutiveWins + 1
        consecutiveLosses := 0
        lastWinMs := atMs
        active := false
        cooldownUntilMs := 0 }
      wins := t.wins + 1 }
  | .loss =>
    let state := { t.state with
      consecutiveLosses := t.state.consecutiveLosses + 1
      consecutiveWins := 0
      lastLossMs := atMs }
    let t := { t with state, losses := t.losses + 1 }
    if t.lossThreshold ≤ state.consecutiveLosses then
      { t with
        state := { state with active := true, cooldownUntilMs := state.lastLossMs + t.cooldownMs }
        activations := t.activations + 1 }
    else t
  | _ => t

def inCooldown (t : LossCooldownTracker) (now : TimestampMs) : Bool :=
  t.state.active && now < t.state.cooldownUntilMs

end LossCooldownTracker

inductive InvariantId
  | endRequiresGameId | predictionRequiresTarget | outcomeRequiresPrediction | winImpliesActualGteTarget
  | lossImpliesActualLtTarget | noDuplicatePredictionId | sequenceNonDecreasing
deriving DecidableEq, Repr

structure InvariantViolation where
  id : InvariantId
  message : String
  context : String
deriving DecidableEq

structure InvariantChecker where
  violations : Nat := 0

namespace InvariantChecker

def outcomeViolations (o : Outcome) : List InvariantViolation :=
  (if o.predictionId = "" then [⟨.outcomeRequiresPrediction, "empty predictionId", o.roundId⟩] else []) ++
    (if o.result = .win ∧ 0 < o.targetMult ∧ o.actualMult < o.targetMult then
      [⟨.winImpliesActualGteTarget, "WIN but actual < target", o.predictionId⟩] else []) ++
    if o.result = .loss ∧ 0 < o.targetMult ∧ o.targetMult ≤ o.actualMult then
      [⟨.lossImpliesActualLtTarget, "LOSS but actual >= target", o.predictionId⟩] else []

def checkOutcome (c : InvariantChecker) (o : Outcome) : InvariantChecker × List InvariantViolation :=
  ({ c with violations := c.violations + (outcomeViolations o).length }, outcomeViolations o)

end InvariantChecker

structure StatisticsRegistry where
  wins : Nat := 0
  losses : Nat := 0
  sequence : Nat := 0

def StatisticsRegistry.noteOutcome (s : StatisticsRegistry) (win : Bool) : StatisticsRegistry :=
  if win then { s with wins := s.wins + 1, sequence := s.sequence + 1 }
  else { s with losses := s.losses + 1, sequence := s.sequence + 1 }

structure OutcomeBooks where
  cooldown : LossCooldownTracker := {}
  invariants : InvariantChecker := {}
  outcomesWin : Nat := 0
  outcomesLoss : Nat := 0
  globalStats : StatisticsRegistry := {}

/-- The beginning of the outcome handler. -/
def OutcomeBooks.note (b : OutcomeBooks) (o : Outcome) (now : TimestampMs) : OutcomeBooks :=
  let b := { b with cooldown := b.cooldown.noteOutcome o now, invariants := (b.invariants.checkOutcome o).1 }
  if o.isWin then { b with outcomesWin := b.outcomesWin + 1, globalStats := b.globalStats.noteOutcome true }
  else if o.result = .loss then
    { b with outcomesLoss := b.outcomesLoss + 1, globalStats := b.globalStats.noteOutcome false }
  else b

namespace OutcomeBooks

/-- The callers of the live validator with the handler that it calls. -/
structure State where
  calls : ValidatorCalls.State := {}
  books : OutcomeBooks := {}
  /-- Bookkeeping: the calls of the handler, with the clock. -/
  noted : List (Outcome × TimestampMs) := []

/-- A step of a caller, whose outcome goes to the handler. The handler and `stats_.record` take no lock: one thread calls
    `onGameEnd`. -/
def step (s : State) (a : ValidatorCalls.Act × TimestampMs) : Option State := do
  let calls ← ValidatorCalls.step s.calls a.1
  let new := (calls.emitted.drop s.calls.emitted.length).map fun m => (m.outcome, a.2)
  some { calls, books := new.foldl (fun b n => b.note n.1 n.2) s.books, noted := s.noted ++ new }

def initial (lossThreshold cooldownMs : Int) : State where
  books := { cooldown := { lossThreshold, cooldownMs } }

end OutcomeBooks
end CrashCore
