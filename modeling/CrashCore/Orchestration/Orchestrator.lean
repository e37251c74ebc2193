import CrashCore.Common.Types
import Mathlib.Data.List.Perm.Basic

/-! The orchestrator (`orchestration/orchestrator.hpp`). Its log lines, which are all that a component's name is for, are
left out. -/

namespace CrashCore

inductive ComponentId
  | application | orchestrator | ingestion | webSocket | socketIo | signing | heartbeat | eventDecoder | eventRouter
  | predictionInterface | validation | outcomeMatcher | predictionRegistry | feedback | outbox | telegram | persistence
  | workerPool | telemetry | logging | security
deriving DecidableEq

/-- Of the two functions of a component, whether it has them. -/
structure Component where
  id : ComponentId
  hasStart : Bool := true
  hasStop : Bool := true
  order : Int := 0
deriving DecidableEq

namespace Orchestrator

/-- A component with its place in `components_`. -/
abbrev Placed := Component × Nat

/-- What a stop found and did: the components that were started since the stop before it, in the order in which their
    starts succeeded, and those whose `stop` it called, in this order. -/
structure Stop where
  live : List Placed
  stopped : List Placed

end Orchestrator

structure Orchestrator where
  components : List Component
  started : List ComponentId := []
  running : Bool := false
  /-- Bookkeeping: the components behind `started_`, and the stops so far. -/
  live : List Orchestrator.Placed := []
  stops : List Orchestrator.Stop := []

namespace Orchestrator

inductive Act
  /-- `sorted` is what `std::sort` makes of the components, and `result` what the start function at a place returns. -/
  | startAll (sorted : List Placed) (result : Nat → Option Error)
  | stopAll

def placed (s : Orchestrator) : List Placed := s.components.zipIdx

/-- The components with a stop function that the inner loop finds for an entry of `started_`. -/
def found (placed : List Placed) (id : ComponentId) : List Placed := placed.filter fun p => p.1.id = id ∧ p.1.hasStop

def stopCalls (s : Orchestrator) : List Placed := s.started.reverse.flatMap (found s.placed)

def stopAll (s : Orchestrator) : Orchestrator :=
  { s with started := [], running := false, live := [], stops := s.stops ++ [⟨s.live, s.stopCalls⟩] }

/-- Components of one order may come in any order. -/
def Sorted (s : Orchestrator) (sorted : List Placed) : Prop :=
  sorted.Perm s.placed ∧ sorted.Pairwise fun p q => p.1.order ≤ q.1.order

instance (s : Orchestrator) : DecidablePred s.Sorted := fun _ => inferInstanceAs (Decidable (_ ∧ _))

/-- Without a start function nothing can fail. -/
def startError (result : Nat → Option Error) (p : Placed) : Option Error := if p.1.hasStart then result p.2 else none

/-- The loop of `startAll`. -/
def startFrom (result : Nat → Option Error) : Orchestrator → List Placed → Orchestrator × Option Error
  | s, [] => ({ s with running := true }, none)
  | s, p :: rest =>
    match startError result p with
    | some e => (s.stopAll, some e)
    | none => startFrom result { s with started := s.started ++ [p.1.id], live := s.live ++ [p] } rest

def step (s : Orchestrator) : Act → Option Orchestrator
  | .startAll sorted result => if s.Sorted sorted then some (startFrom result s sorted).1 else none
  | .stopAll => some s.stopAll

end Orchestrator
end CrashCore
