import CrashCore.Delivery.DurablePredictionTx
import CrashCore.Delivery.Signal
import CrashCore.Library.Run
import CrashCore.PredictionInterface.TargetCoordinator
import CrashCore.Validation.PredictionRegistry

/-! The response and the outcome handler of `application/application.hpp` and the publication in
`prediction_interface/n1_coordinator.hpp`, first for an application with a database.

Metrics, logs, forensics and the feedback on outcomes are left out: nothing here reads them. An event has one
clock reading. -/

namespace CrashCore

structure Application where
  registry : PredictionRegistry := {}
  targets : TargetCoordinator := {}
  /-- With `handoff_`, and through it `outbox_`, of the application. -/
  durableTx : DurablePredictionTx

namespace Application

/-- What the handlers do that matters for the order of commits and publications. -/
inductive Effect
  | persisted (signal : Signal) (ok : Bool)
  /-- The in-memory outbox took the signal while this was committed. -/
  | entered (signal : Signal) (committed : Option Tables)
deriving DecidableEq

def entered (taken : Bool) (signal : Signal) (durableTx : DurablePredictionTx) : List Effect :=
  if taken then [.entered signal durableTx.db.committed] else []

/-- A failed persistence is followed by a publication straight to the handoff; a signal that is published
    neither way releases its target. -/
def onResponse (s : Application) (resp : PredictionResponse) (now : TimestampMs) (f : Faults) :
    Application × List Effect :=
  if ¬isActionable resp then (s, [])
  else
    let pev := fromResponse resp resp.targetRoundId 0 now
    match s.registry.registerPrediction pev with
    | (registry, .error _) => ({ s with registry }, [])
    | (registry, .ok _) =>
      let targets := (s.targets.claim resp.targetRoundId pev.predictionId now).1.markPredicted resp.targetRoundId
      let sig := signalFromPrediction pev now
      let (durableTx, dr) := s.durableTx.persistPrediction pev sig now f
      if dr.ok then
        ({ registry, targets, durableTx }, .persisted sig true :: entered dr.memoryPublished sig durableTx)
      else
        let (durableTx, published) := durableTx.publishMemory sig now
        let targets := if published then targets else (targets.release resp.targetRoundId).1
        ({ registry, targets, durableTx }, .persisted sig false :: entered published sig durableTx)

/-- As in `onResponse`, without a target to release. -/
def onOutcome (s : Application) (o : Outcome) (now : TimestampMs) (fault : Fault) : Application × List Effect :=
  let targets := s.targets.markResolved o.roundId now
  let sig := signalFromOutcome o now
  let (durableTx, dr) := s.durableTx.persistOutcome o sig now fault
  if dr.ok then
    ({ s with targets, durableTx }, .persisted sig true :: entered dr.memoryPublished sig durableTx)
  else
    let (durableTx, published) := durableTx.publishOutcomeMemory sig now
    ({ s with targets, durableTx }, .persisted sig false :: entered published sig durableTx)

/-- `N1Coordinator::onRoundEnd` from the response on: it registers and publishes without the database. -/
def onRoundEnd (s : Application) (resp : PredictionResponse) (gameId : GameId) (crashPoint : Double)
    (now : TimestampMs) : Application × List Effect :=
  if ¬isActionable resp then (s, [])
  else
    let pev := fromResponse resp gameId crashPoint now
    match s.registry.registerPrediction pev with
    | (registry, .error _) => ({ s with registry }, [])
    | (registry, .ok _) =>
      let sig := signalFromPrediction pev now
      let (durableTx, published) := s.durableTx.publishMemory sig now
      ({ s with registry, durableTx }, entered published sig durableTx)

end Application

/-! ### Events

The events of an application with a database, one after the other: the three handlers, what else changes
the registry and the targets, the calls of the outbox workers, and statements of other components on the
connection. `failed` and `entered` are bookkeeping. -/

namespace ApplicationEvents

/-- A signal that the in-memory outbox took. -/
structure Entry where
  signal : Signal
  /-- What was committed at that moment. -/
  committed : Option Tables
  /-- The last persistence of the signal had failed. -/
  afterFailure : Bool
deriving DecidableEq

structure State where
  app : Application
  /-- The keys of the signals whose last persistence failed. -/
  failed : Finset String := ∅
  entered : List Entry := []

inductive Event
  | response (resp : PredictionResponse) (now : TimestampMs) (f : Faults)
  | outcome (o : Outcome) (now : TimestampMs) (fault : Fault)
  | roundEnd (resp : PredictionResponse) (gameId : GameId) (crashPoint : Double) (now : TimestampMs)
  | roundStart (roundId : RoundId) (now : TimestampMs)
  | takeForRound (roundId : RoundId)
  | expireStale (maxAgeMs : Int) (now : TimestampMs)
  | claim (now : TimestampMs)
  | markDelivered (item : OutboxItem) (now : TimestampMs)
  | markFailed (item : OutboxItem) (error : String)
  | statement (stmt : Statement Tables) (fault : Fault)

/-- After `init`, over whatever the database holds. -/
def initial (d : Tables) (capacity : Nat) : State :=
  { app := { durableTx :=
      { db := .pg ⟨d, .idle⟩, repo := some {}, handoff := some { outbox := .new capacity },
        memory := some (.new capacity) } } }

def note (s : State) : Application.Effect → State
  | .persisted signal ok =>
    { s with failed := if ok then s.failed.erase signal.dedupeKey else insert signal.dedupeKey s.failed }
  | .entered signal committed =>
    { s with entered := s.entered ++ [⟨signal, committed, decide (signal.dedupeKey ∈ s.failed)⟩] }

/-- The state after a handler. -/
def after (s : State) (r : Application × List Application.Effect) : State := r.2.foldl note { s with app := r.1 }

def onOutbox (s : State) (call : Outbox → Outbox) : State :=
  let durableTx := s.app.durableTx
  let handoff := durableTx.handoff.map fun h => { h with outbox := call h.outbox }
  { s with app := { s.app with durableTx := { durableTx with handoff } } }

def onDb (s : State) (call : Connection Tables → Connection Tables) : State :=
  match s.app.durableTx.db with
  | .pg c => { s with app := { s.app with durableTx := { s.app.durableTx with db := .pg (call c) } } }
  | _ => s

/-- Every event can happen at any time. -/
def step (s : State) : Event → Option State
  | .response resp now f => some (after s (s.app.onResponse resp now f))
  | .outcome o now fault => some (after s (s.app.onOutcome o now fault))
  | .roundEnd resp gameId crashPoint now => some (after s (s.app.onRoundEnd resp gameId crashPoint now))
  | .roundStart roundId now => some { s with app := { s.app with targets := s.app.targets.noteRoundStart roundId now } }
  | .takeForRound roundId => some { s with app := { s.app with registry := (s.app.registry.takeForRound roundId).2 } }
  | .expireStale maxAgeMs now =>
    some { s with app := { s.app with registry := s.app.registry.expireStale maxAgeMs now } }
  | .claim now => some (onOutbox s fun o => ((o.claim now).map (·.2)).getD o)
  | .markDelivered item now => some (onOutbox s fun o => (o.markDelivered item now).1)
  | .markFailed item error => some (onOutbox s fun o => (o.markFailed item error).1)
  | .statement stmt fault => some (onDb s fun c => (c.exec stmt fault).1)

end ApplicationEvents

/-! ### Responses

Sequences of prediction responses at the response handler, with and without a database. Here a run of the handler also
says how it ended. -/

/-- `durable_tx_` when there is a database, and `handoff_` without one or when the transaction fails; the flag is
    `published` in the handler. -/
def DurablePredictionTx.publish (s : DurablePredictionTx) (persistent : Bool) (pev : PredictionEvent) (sig : Signal)
    (now : TimestampMs) (f : Faults) : DurablePredictionTx × Bool :=
  if persistent then
    let (s, dr) := s.persistPrediction pev sig now f
    if dr.ok then (s, true) else s.publishMemory sig now
  else s.publishMemory sig now

/-- How a run of the response handler ends. -/
inductive ResponseEnd
  | skipped | refused | published | unpublished
deriving DecidableEq, Repr

namespace Application

/-- Without a database `durableTx` only stands for its handoff. -/
def handleResponse (persistent : Bool) (s : Application) (resp : PredictionResponse) (now : TimestampMs) (f : Faults) :
    Application × ResponseEnd :=
  if ¬isActionable resp then (s, .skipped)
  else
    let pev := fromResponse resp resp.targetRoundId 0 now
    match s.registry.registerPrediction pev with
    | (registry, .error _) => ({ s with registry }, .refused)
    | (registry, .ok _) =>
      let targets := (s.targets.claim resp.targetRoundId pev.predictionId now).1.markPredicted resp.targetRoundId
      let sig := signalFromPrediction pev now
      let (durableTx, published) := s.durableTx.publish persistent pev sig now f
      let targets := if published then targets else (targets.release resp.targetRoundId).1
      ({ registry, targets, durableTx }, if published then .published else .unpublished)

/-- With a database this is `onResponse`. -/
theorem handleResponse_persistent (s : Application) (resp : PredictionResponse) (now : TimestampMs) (f : Faults) :
    (handleResponse true s resp now f).1 = (s.onResponse resp now f).1 := by
  unfold handleResponse onResponse
  by_cases hact : isActionable resp
  swap
  · rw [if_pos hact, if_pos hact]
  rw [if_neg (not_not_intro hact), if_neg (not_not_intro hact)]
  dsimp only
  rcases s.registry.registerPrediction (fromResponse resp resp.targetRoundId 0 now) with ⟨registry, e | u⟩
  · rfl
  · dsimp only
    rw [DurablePredictionTx.publish, if_pos rfl]
    rcases hp : s.durableTx.persistPrediction (fromResponse resp resp.targetRoundId 0 now)
      (signalFromPrediction (fromResponse resp resp.targetRoundId 0 now) now) now f with ⟨tx, dr⟩
    by_cases hok : dr.ok = true
    · simp only [hok, ↓reduceIte]
    · simp only [hok, ↓reduceIte, Bool.false_eq_true]

end Application

/-! ### Sequences of responses -/

/-- PostgreSQL with no open transaction. -/
def Db.Closed : Db → Prop
  | .pg c => c.Closed
  | _ => False

instance : DecidablePred Db.Closed
  | .pg c => decidable_of_iff c.Closed Iff.rfl
  | .base => decidable_of_iff False Iff.rfl
  | .absent => decidable_of_iff False Iff.rfl

namespace ResponseRuns

/-- A run of the handler that released a claim. -/
structure Release where
  roundId : RoundId
  /-- Whose claim it was. -/
  owner : Option PredictionId
  releasedBy : PredictionId
deriving DecidableEq

structure State where
  app : Application
  published : List (RoundId × PredictionId) := []
  released : List Release := []

inductive Event
  | response (resp : PredictionResponse) (now : TimestampMs) (f : Faults)
  /-- What workers and other components do to the outbox and the database between two responses. -/
  | outside (durableTx : DurablePredictionTx)

/-- What `init` sets up: the handoff, and with a database the connection and the repository. -/
structure Installed (persistent : Bool) (tx : DurablePredictionTx) : Prop where
  handoff : tx.handoff.isSome
  db : persistent = true → tx.db.Closed
  repo : persistent = true → tx.repo.isSome

instance (persistent : Bool) (tx : DurablePredictionTx) : Decidable (Installed persistent tx) :=
  decidable_of_iff (tx.handoff.isSome ∧ (persistent = true → tx.db.Closed) ∧ (persistent = true → tx.repo.isSome))
    ⟨fun h => ⟨h.1, h.2.1, h.2.2⟩, fun h => ⟨h.handoff, h.db, h.repo⟩⟩

def initial (durableTx : DurablePredictionTx) : State := { app := { durableTx } }

/-- The bookkeeping of a run of the handler. -/
def note (s : State) (resp : PredictionResponse) (now : TimestampMs) : ResponseEnd → State
  | .published => { s with published := s.published ++ [(resp.targetRoundId, resp.predictionId)] }
  | .unpublished =>
    let claimed := (s.app.targets.claim resp.targetRoundId resp.predictionId now).1.markPredicted resp.targetRoundId
    { s with
      released := s.released ++ [⟨resp.targetRoundId, claimed.owner resp.targetRoundId, resp.predictionId⟩] }
  | .skipped | .refused => s

def step (persistent : Bool) (s : State) : Event → Option State
  | .response resp now f =>
    let (app, e) := Application.handleResponse persistent s.app resp now f
    some { note s resp now e with app }
  | .outside durableTx => if Installed persistent durableTx then some { s with app := { s.app with durableTx } } else none

end ResponseRuns
end CrashCore
