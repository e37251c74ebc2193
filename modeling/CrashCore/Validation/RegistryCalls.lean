import CrashCore.Library.Run
import CrashCore.Validation.LiveValidator
import CrashCore.Validation.PredictionRegistry

/-! Calls of a prediction registry in any order (`validation/prediction_registry.hpp`). -/

namespace CrashCore
namespace RegistryCalls

structure State where
  registry : PredictionRegistry
  /-- Bookkeeping: all predictions whose registration succeeded, and where those went that are not pending. -/
  accepted : List PredictionEvent := []
  taken : List PredictionEvent := []
  expired : List PredictionEvent := []
  pruned : List PredictionEvent := []

/-- A new registry. -/
def initial (maxEntries : Nat) : State := { registry := { maxEntries } }

inductive Act
  | registerPrediction (ev : PredictionEvent)
  | takeForRound (roundId : RoundId)
  | expireStale (maxAgeMs : Int) (now : TimestampMs)

def step (s : State) : Act → Option State
  | .registerPrediction ev =>
    let result := s.registry.registerPrediction ev
    some (match result.2 with
      | .ok () => { s with
        registry := result.1
        accepted := s.accepted ++ [ev]
        pruned := s.pruned ++ (s.registry.add ev).droppedBy (s.registry.add ev).surplus }
      | .error _ => { s with registry := result.1 })
  | .takeForRound roundId =>
    let result := s.registry.takeForRound roundId
    some { s with registry := result.2, taken := s.taken ++ result.1 }
  | .expireStale maxAgeMs now =>
    some { s with
      registry := s.registry.expireStale maxAgeMs now
      expired := s.expired ++ s.registry.stale maxAgeMs now }

theorem step_ne_none (s : State) (a : Act) : step s a ≠ none := by
  cases a <;> exact Option.some_ne_none _

/-- A registration keeps the registry but for the count of duplicates, or it adds its prediction and prunes. -/
theorem step_registerPrediction (s : State) (ev : PredictionEvent) :
    (s.registry.Accepts ev ∧ step s (.registerPrediction ev) = some { s with
        registry := (s.registry.add ev).surplus.foldl PredictionRegistry.drop (s.registry.add ev)
        accepted := s.accepted ++ [ev]
        pruned := s.pruned ++ (s.registry.add ev).droppedBy (s.registry.add ev).surplus }) ∨
      (¬s.registry.Accepts ev ∧ ∃ duplicates, step s (.registerPrediction ev) =
        some { s with registry := { s.registry with duplicates } }) := by
  by_cases h : s.registry.Accepts ev
  · refine Or.inl ⟨h, ?_⟩
    rw [step, PredictionRegistry.registerPrediction_of_accepts h]
  · obtain ⟨duplicates, e, heq⟩ := PredictionRegistry.registerPrediction_of_not_accepts h
    refine Or.inr ⟨h, duplicates, ?_⟩
    rw [step, heq]

end RegistryCalls

/-! ### Stuck predictions

The recovery of stuck predictions (`validation/stuck_recovery.hpp`), which shares its registry with the live
validator. -/

namespace StuckRecovery

structure State where
  validation : ValidatorCalls.State := {}
  maxAgeMs : Int := 180000
  recovered : Nat := 0
  /-- What the stale handler was called for. -/
  stale : List PredictionEvent := []

inductive Act
  | validate (a : ValidatorCalls.Act)
  | scan (now : TimestampMs)

def initial (maxEntries : Nat) (maxAgeMs : Int) : State :=
  { validation := { validator := { registry := { maxEntries } } }, maxAgeMs }

/-- The expired predictions are counted; the handler is not called. -/
def scan (s : State) (now : TimestampMs) : State :=
  let registry := s.validation.validator.registry
  let expired := registry.expireStale s.maxAgeMs now
  { s with
    validation := { s.validation with validator := { s.validation.validator with registry := expired } }
    recovered := s.recovered + (registry.entries.length - expired.entries.length) }

def step (s : State) : Act → Option State
  | .validate a => (ValidatorCalls.step s.validation a).map fun validation => { s with validation }
  | .scan now => some (scan s now)

end StuckRecovery
end CrashCore
