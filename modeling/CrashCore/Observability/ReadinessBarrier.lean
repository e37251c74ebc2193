import CrashCore.Common.Types
import CrashCore.Library.Run
import Mathlib.Logic.Function.Basic

/-! The readiness barrier (`observability/readiness_barrier.hpp`). Any number of threads call `admit`, with the handler
that is also the drain handler, and `advanceTo`. A step is one access of the stage, one critical section, or one call of
the handler. -/

namespace CrashCore

inductive ReadinessStage
  | booting | minimalStateReady | predictionStateReady | liveN1Ready | fullHydrationReady
deriving DecidableEq

def ReadinessStage.toNat : ReadinessStage → Nat
  | .booting => 0
  | .minimalStateReady => 1
  | .predictionStateReady => 2
  | .liveN1Ready => 3
  | .fullHydrationReady => 4

namespace ReadinessBarrier

/-- An event with the call of `admit` that it comes from (calls are counted from one) and the thread of that call. -/
structure Admitted where
  id : Nat
  thread : Nat
  event : CrashEvent
deriving DecidableEq

/-- The next step of a thread. -/
inductive Thread
  | idle
  /-- `admit` reads the stage. -/
  | check (x : Admitted)
  /-- `admit` calls the handler. -/
  | handle (x : Admitted)
  /-- `admit` takes the lock and holds the event. -/
  | hold (x : Admitted)
  /-- `advanceTo` loads the stage. -/
  | load (target : ReadinessStage)
  | exchange (expected target : ReadinessStage)
  /-- `drainHeld` takes the lock and the events. -/
  | drain
  /-- `drainHeld` calls the handler for the first event of the batch. -/
  | handling (batch : List Admitted)

structure State where
  /-- The number of threads. -/
  n : Nat
  holdCapacity : Nat
  stage : ReadinessStage := .booting
  held : List Admitted := []
  dropped : Nat := 0
  threads : Nat → Thread := fun _ => .idle
  /-- The events of all calls of `admit`. -/
  admitted : List Admitted := []
  /-- The events for which the handler was called. -/
  handled : List Admitted := []
  /-- The events that were dropped. -/
  lost : List Admitted := []
  /-- `pop_front` was called on an empty deque. -/
  undefined : Bool := false

inductive Act
  | admitEvent (i : Nat) (event : CrashEvent)
  | advanceTo (i : Nat) (target : ReadinessStage)
  /-- The next step of a thread. `compare_exchange_weak` may fail although it finds what it expects. -/
  | go (i : Nat) (spurious : Bool)

def initial (n holdCapacity : Nat) : State := { n, holdCapacity }

def setThread (s : State) (i : Nat) (c : Thread) : State := { s with threads := Function.update s.threads i c }

/-- The critical section of `admit`. -/
def push (s : State) (x : Admitted) : State :=
  let s :=
    if s.holdCapacity ≤ s.held.length then
      { s with
        held := s.held.tail
        dropped := s.dropped + 1
        lost := s.lost ++ s.held.head?.toList
        undefined := s.undefined || s.held.isEmpty }
    else s
  { s with held := s.held ++ [x] }

/-- What `advanceTo` does with the stage that it has loaded. -/
def attempt (expected target : ReadinessStage) : Thread :=
  if expected.toNat < target.toNat then .exchange expected target else .idle

def go (s : State) (i : Nat) (spurious : Bool) : Option State :=
  match s.threads i with
  | .idle => none
  | .check x =>
    some (setThread s i (if ReadinessStage.liveN1Ready.toNat ≤ s.stage.toNat then .handle x else .hold x))
  | .handle x => some (setThread { s with handled := s.handled ++ [x] } i .idle)
  | .hold x => some (setThread (push s x) i .idle)
  | .load target => some (setThread s i (attempt s.stage target))
  | .exchange expected target =>
    if s.stage = expected ∧ spurious = false then
      some (setThread { s with stage := target } i
        (if ReadinessStage.liveN1Ready.toNat ≤ target.toNat then .drain else .idle))
    else some (setThread s i (attempt s.stage target))
  | .drain => some (setThread { s with held := [] } i (.handling s.held))
  | .handling [] => some (setThread s i .idle)
  | .handling (x :: batch) => some (setThread { s with handled := s.handled ++ [x] } i (.handling batch))

def step (s : State) : Act → Option State
  | .admitEvent i event =>
    match s.threads i with
    | .idle =>
      if i < s.n then
        let x : Admitted := { id := s.admitted.length + 1, thread := i, event }
        some (setThread { s with admitted := s.admitted ++ [x] } i (.check x))
      else none
    | _ => none
  | .advanceTo i target =>
    match s.threads i with
    | .idle => if i < s.n then some (setThread s i (.load target)) else none
    | _ => none
  | .go i spurious => if i < s.n then go s i spurious else none

end ReadinessBarrier
end CrashCore
