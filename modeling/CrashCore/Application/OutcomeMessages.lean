import CrashCore.Delivery.Workers
import CrashCore.Library.Run
import CrashCore.Validation.LiveValidator

/-! The messages about outcomes in `application/application.hpp`: the event handler of the socket stamps the start of
a round in the temporal guard, the outcome handler publishes, and the outbox worker asks the guard before it sends.

A call of either handler is one step. Metrics, targets, histories, forensics and the feedback are left out: nothing
here reads them. -/

namespace CrashCore

/-- `durable_tx_` when there is a database, and `handoff_` without one or when the insertion fails; the flag says
    whether the outbox took the signal. -/
def DurablePredictionTx.publishOutcome (s : DurablePredictionTx) (persistent : Bool) (o : Outcome) (sig : Signal)
    (now : TimestampMs) (fault : Fault) : DurablePredictionTx × Bool :=
  if persistent then
    let (s, dr) := s.persistOutcome o sig now fault
    if dr.ok then (s, dr.memoryPublished) else s.publishOutcomeMemory sig now
  else s.publishOutcomeMemory sig now

/-- The round of an event at the event handler of the socket. -/
def CrashEvent.startedRound (e : CrashEvent) : RoundId := if e.gameId = "" then e.roundId else e.gameId

namespace OutcomeMessages
open DeliveryWorkers (authorize durableTx withTx)

/-- What the deliver function was told about a signal. -/
structure Delivery where
  signal : Signal
  result : TemporalAuthResult

structure State where
  base : DeliveryWorkers.State
  /-- The keys whose last publication told the outcome of a round with a noted start. -/
  announced : Finset String := ∅
  /-- The keys whose last first claim was within the delivery deadline. -/
  timely : Finset String := ∅
  /-- The first deliveries of outcomes of rounds with a noted start that were claimed within the deadline, and which
      of these outcomes were dead-lettered. -/
  deliveries : List Delivery := []
  deadLetters : List Signal := []

/-- An outcome of a round with a noted start whose first claim was within the deadline. -/
def Tracked (s : State) (item : OutboxItem) : Prop :=
  item.signal.kind = .outcome ∧ item.dedupeKey ∈ s.announced ∧ item.dedupeKey ∈ s.timely

instance (s : State) (item : OutboxItem) : Decidable (Tracked s item) := inferInstanceAs (Decidable (_ ∧ _))

inductive Act
  | socketEvent (e : CrashEvent) (fault : Fault)
  /-- The validator has matched a prediction with the End of its round. -/
  | outcome (p : PredictionEvent) (e : CrashEvent) (fault : Fault)
  /-- The clock, the publications of predictions, and the workers. -/
  | other (a : DeliveryWorkers.Action)

def initial (tables : Tables) (clock : TimestampMs) (capacity : Nat) (deliveryDeadlineMs : Int) : State :=
  { base := DeliveryWorkers.initial tables clock capacity deliveryDeadlineMs }

/-- The guard and the outcomes belong to the handlers, and without a database there are no transactions and no
    notification worker. -/
def Possible (persistent : Bool) : DeliveryWorkers.Action → Prop
  | .noteTargetStarted .. | .killStale .. => False
  | .publish signal => signal.kind = .prediction
  | .advance _ | .claim | .deliver | .complete => True
  | .persist .. | .recoverStaleClaims _ | .claimRows .. | .deliverRow _ | .completeRow .. => persistent = true

instance (persistent : Bool) : DecidablePred (Possible persistent)
  | .noteTargetStarted .. => .isFalse id
  | .killStale .. => .isFalse id
  | .publish signal => inferInstanceAs (Decidable (signal.kind = .prediction))
  | .advance _ => .isTrue trivial
  | .claim => .isTrue trivial
  | .deliver => .isTrue trivial
  | .complete => .isTrue trivial
  | .persist .. => inferInstanceAs (Decidable (persistent = true))
  | .recoverStaleClaims _ => inferInstanceAs (Decidable (persistent = true))
  | .claimRows .. => inferInstanceAs (Decidable (persistent = true))
  | .deliverRow _ => inferInstanceAs (Decidable (persistent = true))
  | .completeRow .. => inferInstanceAs (Decidable (persistent = true))

def mark (keys : Finset String) (key : String) (b : Bool) : Finset String :=
  if b then insert key keys else keys.erase key

/-! ### The handlers -/

/-- The temporal part of the event handler. -/
def socketEvent (persistent : Bool) (s : State) (e : CrashEvent) (fault : Fault) : State :=
  if e.kind = .start ∨ e.kind = .prepare then
    let rid := e.startedRound
    let b := s.base
    let guard := b.guard.noteTargetStarted rid (if e.beganAtMs > 0 then e.beganAtMs else b.clock) b.clock
    if persistent then
      let (guard, conn) := guard.killStaleForTarget b.conn rid b.clock fault
      { s with base := { b with guard, conn } }
    else { s with base := { b with guard } }
  else s

def outcomeHandler (persistent : Bool) (s : State) (o : Outcome) (fault : Fault) : State :=
  let sig := signalFromOutcome o s.base.clock
  let (tx, taken) := (durableTx s.base).publishOutcome persistent o sig s.base.clock fault
  { s with
    base := withTx s.base tx
    announced :=
      if taken then mark s.announced sig.dedupeKey (s.base.guard.started o.roundId).isSome else s.announced }

/-! ### The outbox worker -/

def noteClaim (s : State) (base : DeliveryWorkers.State) : State :=
  match s.base.worker, base.worker with
  | .waiting, .claimed item =>
    if item.attempts = 0 then
      { s with
        base
        timely := mark s.timely item.dedupeKey
          (decide (base.clock - item.signal.createdAtMs ≤ base.guard.deliveryDeadlineMs)) }
    else { s with base }
  | _, _ => { s with base }

def noteDelivery (s : State) (base : DeliveryWorkers.State) : State :=
  match s.base.worker with
  | .claimed item =>
    if Tracked s item ∧ item.attempts = 0 then
      { s with base, deliveries := s.deliveries ++ [⟨item.signal, authorize s.base item⟩] }
    else { s with base }
  | _ => { s with base }

def noteCompletion (s : State) (base : DeliveryWorkers.State) : State :=
  match s.base.worker with
  | .rejected item =>
    if Tracked s item ∧ Outbox.LastAttempt item then { s with base, deadLetters := s.deadLetters ++ [item.signal] }
    else { s with base }
  | _ => { s with base }

/-- The bookkeeping of an action. -/
def note (s : State) (base : DeliveryWorkers.State) : DeliveryWorkers.Action → State
  | .claim => noteClaim s base
  | .deliver => noteDelivery s base
  | .complete => noteCompletion s base
  | _ => { s with base }

def step (persistent : Bool) (s : State) : Act → Option State
  | .socketEvent e fault => some (socketEvent persistent s e fault)
  | .outcome p e fault =>
    if e.IsValidEnd ∧ p.targetRoundId = e.endedRound then
      some (outcomeHandler persistent s (makeOutcome p e.crashPoint s.base.clock) fault)
    else none
  | .other a =>
    if Possible persistent a then (DeliveryWorkers.step s.base a).map fun base => note s base a else none

end OutcomeMessages
end CrashCore
