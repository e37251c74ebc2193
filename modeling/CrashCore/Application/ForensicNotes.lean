import CrashCore.Application.Handlers
import CrashCore.Application.OutcomeMessages
import CrashCore.Feedback.DeliveryForensics
import CrashCore.Feedback.ExactlyOnceFeedback

/-! Where `application/application.hpp` notes what happens to its messages: the response handler when a prediction is
published, the outcome handler when the feedback takes its outcome, and the deliver function of the notification
worker. `N1Coordinator::onRoundEnd` and the deliver function of the outbox worker note nothing.

A call is one step. Whether the registry takes a prediction is left open: a refused one is no step here. A send can
fail. `first` is the key at the beginning of the traces at a note. -/

namespace CrashCore
namespace SignalTracing
open DeliveryWorkers (Drainer setBatch authorize authorizeRow durableTx withTx)

/-- A Delivered stage that was noted. -/
structure DeliveredNote where
  key : String
  /-- The dedupe key of the row that had just been sent, if any. -/
  sent : Option String
deriving DecidableEq

structure State where
  base : DeliveryWorkers.State
  feedback : ExactlyOnceFeedback
  forensics : DeliveryForensics := {}
  /-- When each prediction was published last. -/
  publishedAt : PredictionId → Option TimestampMs := fun _ => none
  /-- The predictions of which a stage was noted. -/
  traced : Finset PredictionId := ∅
  deliveredNotes : List DeliveredNote := []

inductive Act
  | response (resp : PredictionResponse) (f : Faults) (first : String)
  /-- `onRoundEnd` of the coordinator, from the response on. -/
  | roundEnd (resp : PredictionResponse) (gameId : GameId) (crashPoint : Double)
  | outcome (o : Outcome) (answered : Bool) (fault : Fault) (first : String)
  /-- The deliver functions, when the client says `sent` or `result`. -/
  | deliver (sent : Bool)
  | deliverRow (d : Drainer) (result : Except String Unit) (first : String)
  /-- The clock, the guard, and what the workers do beside. -/
  | other (a : DeliveryWorkers.Action)

def initial (tables : Tables) (clock : TimestampMs) (capacity : Nat) (deliveryDeadlineMs : Int)
    (feedback : ExactlyOnceFeedback) : State :=
  { base := DeliveryWorkers.initial tables clock capacity deliveryDeadlineMs, feedback }

/-! ### The handlers -/

/-- What the response handler publishes, and whether. -/
def publication (persistent : Bool) (s : State) (pev : PredictionEvent) (f : Faults) : DurablePredictionTx × Bool :=
  (durableTx s.base).publish persistent pev (signalFromPrediction pev s.base.clock) s.base.clock f

/-- The outbox id of the note: only the transaction gives one. -/
def outboxId (persistent : Bool) (s : State) (pev : PredictionEvent) (f : Faults) : String :=
  let dr := ((durableTx s.base).persistPrediction pev (signalFromPrediction pev s.base.clock) s.base.clock f).2
  if persistent ∧ dr.ok then pev.predictionId ++ "-pred" else ""

def response (persistent : Bool) (s : State) (pev : PredictionEvent) (f : Faults) (first : String) : State :=
  let (tx, published) := publication persistent s pev f
  let base := withTx s.base tx
  if published then
    { s with
      base
      forensics :=
        s.forensics.note pev.predictionId .published (outboxId persistent s pev f) "" s.base.clock first
      publishedAt := Function.update s.publishedAt pev.predictionId (some s.base.clock)
      traced := insert pev.predictionId s.traced }
  else { s with base }

def handoff (s : State) (pev : PredictionEvent) : DurablePredictionTx × Bool :=
  (durableTx s.base).publishMemory (signalFromPrediction pev s.base.clock) s.base.clock

def roundEnd (s : State) (pev : PredictionEvent) : State :=
  let (tx, published) := handoff s pev
  let base := withTx s.base tx
  if published then
    { s with base, publishedAt := Function.update s.publishedAt pev.predictionId (some s.base.clock) }
  else { s with base }

def outcome (persistent : Bool) (s : State) (o : Outcome) (answered : Bool) (fault : Fault) (first : String) : State :=
  let now := s.base.clock
  let (feedback, applied) := s.feedback.apply { outcome := o, now, answered }
  let (tx, _) := (durableTx s.base).publishOutcome persistent o (signalFromOutcome o now) now fault
  let base := withTx s.base tx
  if applied then
    { s with
      base, feedback
      forensics := s.forensics.note o.predictionId .delivered "" "" now first
      traced := insert o.predictionId s.traced
      deliveredNotes := s.deliveredNotes ++ [⟨o.predictionId, none⟩] }
  else { s with base, feedback }

/-! ### The deliver functions -/

/-- A send that fails is for the worker what a rejected one is. -/
def deliver (s : State) (sent : Bool) : Option State :=
  match s.base.worker with
  | .claimed item =>
    if (authorize s.base item).allowed ∧ sent = false then
      some { s with base := { s.base with worker := .rejected item } }
    else (DeliveryWorkers.step s.base .deliver).map fun base => { s with base }
  | _ => none

def noteRow (s : State) (base : DeliveryWorkers.State) (row : NotificationRow) (first : String) :
    Except String Unit → State
  | .ok _ =>
    { s with
      base
      forensics := s.forensics.note (toString row.id) .delivered (toString row.id) "" s.base.clock first
      deliveredNotes := s.deliveredNotes ++ [⟨toString row.id, some row.dedupeKey⟩] }
  | .error m =>
    { s with
      base
      forensics := s.forensics.note (toString row.id) .failed (toString row.id) m s.base.clock first }

/-- What the deliver function returns for a row, when the client would say `result`. -/
def rowResult (s : State) (row : NotificationRow) (result : Except String Unit) : Except String Unit :=
  if (authorizeRow s.base row).allowed then result else .error (authorizeRow s.base row).reason

def deliverRow (s : State) (d : Drainer) (result : Except String Unit) (first : String) : Option State :=
  match s.base.batches d with
  | ⟨row :: rest, none⟩ =>
    match rowResult s row result with
    | .ok _ => (DeliveryWorkers.step s.base (.deliverRow d)).map fun base => noteRow s base row first (.ok ())
    | .error m => some (noteRow s (setBatch s.base d ⟨row :: rest, some (.error m)⟩) row first (.error m))
  | _ => none

/-- The key of the note that the action may make. -/
def noteKey (s : State) : Act → Option String
  | .response resp _ _ => some resp.predictionId
  | .outcome o .. => some o.predictionId
  | .deliverRow d .. => (s.base.batches d).rows.head?.map fun row => toString row.id
  | .roundEnd .. | .deliver _ | .other _ => none

def firstKey : Act → String
  | .response _ _ first | .outcome _ _ _ first | .deliverRow _ _ first => first
  | .roundEnd .. | .deliver _ | .other _ => ""

/-- The publications and the deliver functions are actions of their own, and without a database there are no
    statements. -/
def Possible (persistent : Bool) : DeliveryWorkers.Action → Prop
  | .persist .. | .publish _ | .deliver | .deliverRow _ => False
  | .advance _ | .noteTargetStarted .. | .claim | .complete => True
  | .killStale .. | .recoverStaleClaims _ | .claimRows .. | .completeRow .. => persistent = true

instance (persistent : Bool) : DecidablePred (Possible persistent)
  | .persist .. => .isFalse id
  | .publish _ => .isFalse id
  | .deliver => .isFalse id
  | .deliverRow _ => .isFalse id
  | .advance _ => .isTrue trivial
  | .noteTargetStarted .. => .isTrue trivial
  | .claim => .isTrue trivial
  | .complete => .isTrue trivial
  | .killStale .. => inferInstanceAs (Decidable (persistent = true))
  | .recoverStaleClaims _ => inferInstanceAs (Decidable (persistent = true))
  | .claimRows .. => inferInstanceAs (Decidable (persistent = true))
  | .completeRow .. => inferInstanceAs (Decidable (persistent = true))

def step (persistent : Bool) (s : State) (a : Act) : Option State :=
  if ∀ k ∈ noteKey s a, s.forensics.CanBeFirst k (firstKey a) then
    match a with
    | .response resp f first =>
      if isActionable resp then
        some (response persistent s (fromResponse resp resp.targetRoundId 0 s.base.clock) f first)
      else none
    | .roundEnd resp gameId crashPoint =>
      if isActionable resp then some (roundEnd s (fromResponse resp gameId crashPoint s.base.clock)) else none
    | .outcome o answered fault first => some (outcome persistent s o answered fault first)
    | .deliver sent => deliver s sent
    | .deliverRow d result first => deliverRow s d result first
    | .other a =>
      if Possible persistent a then (DeliveryWorkers.step s.base a).map fun base => { s with base } else none
  else none

end SignalTracing
end CrashCore
