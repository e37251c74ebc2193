import CrashCore.Observability.ReadinessBarrier

/-! What brings the readiness barrier up (`live/live_boot.hpp`). Thread 0 runs it, and the other threads admit events. The
measured durations are left out. -/

namespace CrashCore
namespace LiveBoot
open ReadinessBarrier (Act)

inductive Call
  | validateSchema | acquire | startRenewLoop | seed | prewarmPrediction | startPollWorker
deriving DecidableEq, Repr

/-- Which of the parts are there. -/
structure Deps where
  supervisor : Bool := true
  seeder : Bool := true
  pollWorker : Bool := true
  validateSchema : Bool := true
  prewarmPrediction : Bool := true

inductive Op
  | advanceTo (target : ReadinessStage)
  | call (c : Call)
deriving DecidableEq

def calls (present : Bool) (cs : List Call) : List Op := if present then cs.map .call else []

/-- `run` up to the stage in which events are handled. -/
def beforeLive (deps : Deps) : List Op :=
  .advanceTo .booting :: (calls deps.validateSchema [.validateSchema] ++
    calls deps.supervisor [.acquire, .startRenewLoop] ++ .advanceTo .minimalStateReady ::
    (calls deps.seeder [.seed] ++ .advanceTo .predictionStateReady ::
    (calls deps.prewarmPrediction [.prewarmPrediction] ++ calls deps.pollWorker [.startPollWorker])))

def program (deps : Deps) : List Op :=
  beforeLive deps ++ [.advanceTo .liveN1Ready, .advanceTo .fullHydrationReady]

structure State where
  barrier : ReadinessBarrier.State
  todo : List Op
  /-- Bookkeeping: what was begun and did not fail. -/
  done : List Op := []
  /-- The message of a call that failed or threw. -/
  error : Option String := none

def initial (deps : Deps) (n holdCapacity : Nat) : State :=
  { barrier := ReadinessBarrier.initial n holdCapacity, todo := program deps }

inductive Step
  /-- The boot goes on; `error` is what comes out of a call that fails. -/
  | boot (error : Option String)
  | barrier (a : Act)

/-- The other threads only admit events. -/
def Allowed : Act → Prop
  | .admitEvent i _ => i ≠ 0
  | .advanceTo .. => False
  | .go .. => True

instance : DecidablePred Allowed
  | .admitEvent i _ => inferInstanceAs (Decidable (i ≠ 0))
  | .advanceTo .. => .isFalse id
  | .go .. => .isTrue trivial

def step (s : State) : Step → Option State
  | .boot error =>
    match s.barrier.threads 0, s.todo with
    | .idle, .advanceTo target :: todo =>
      (ReadinessBarrier.step s.barrier (.advanceTo 0 target)).map fun barrier =>
        { s with barrier, todo, done := s.done ++ [.advanceTo target] }
    | .idle, .call c :: todo =>
      match error with
      | none => some { s with todo, done := s.done ++ [.call c] }
      | some e => some { s with todo := [], error := some e }
    | _, _ => none
  | .barrier a =>
    if Allowed a then (ReadinessBarrier.step s.barrier a).map fun barrier => { s with barrier } else none

end LiveBoot
end CrashCore
