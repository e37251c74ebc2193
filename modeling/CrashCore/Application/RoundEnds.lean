import CrashCore.Application.Handlers
import CrashCore.Ingestion.CrashHistory
import CrashCore.Ingestion.EventRouter
import CrashCore.PredictionInterface.PredictionClient
import CrashCore.Validation.LiveValidator

/-! The ways of an End through `application/application.hpp`: the packets of the socket
(`ingestion/native_bc_socket.hpp`), the rounds of the poll worker (`ingestion/rest/poll_worker.hpp`), `drainQueues`,
and under the last two `N1Coordinator::onRoundEnd` with the response handler.

The three threads run side by side. A call goes from stage to stage, and steps of the others may come between any two
of its stages. -/

namespace CrashCore

/-- A valid End as the decoder and the poll worker make it: with one id under both names. -/
structure CrashEvent.EndsRound (e : CrashEvent) : Prop where
  valid : e.IsValidEnd
  sameId : e.roundId = e.gameId
  named : e.gameId ≠ ""

instance (e : CrashEvent) : Decidable e.EndsRound :=
  decidable_of_iff (e.IsValidEnd ∧ e.roundId = e.gameId ∧ e.gameId ≠ "") ⟨fun h => ⟨h.1, h.2.1, h.2.2⟩, fun h => ⟨h.1, h.2, h.3⟩⟩

namespace RoundEnds

inductive Source
  | socket | poll | main
deriving DecidableEq, Repr

inductive Stage
  /-- In `onPacket`: routed, the event handler comes next. -/
  | routed
  /-- In `drainQueues`: out of the validation queue. -/
  | popped
  /-- At `onGameEnd`, and in it with the round marked as resolved. -/
  | settling
  | taking
  /-- In `onRoundEnd`: at `observeEnd`, and at `submit`. -/
  | observing
  | submitting
  /-- In the response handler: at the registration, and at the publication. -/
  | handling (resp : PredictionResponse)
  | publishing (resp : PredictionResponse) (pev : PredictionEvent)
  /-- Back in `onRoundEnd`: at its own registration, and at its own publication. -/
  | coordinating (resp : PredictionResponse)
  | handingOff (pev : PredictionEvent)
  /-- In `fetchAndIngest`: the handler is done, the router comes next. -/
  | routing
deriving DecidableEq

structure Call where
  source : Source
  event : CrashEvent
  stage : Stage
deriving DecidableEq

/-- A registration, or the call that publishes. -/
structure Announcement where
  roundId : RoundId
  /-- The End of the round had been processed. -/
  afterEnd : Bool
deriving DecidableEq

/-- Bookkeeping. -/
structure Log where
  /-- The rounds whose End was observed or given to `onGameEnd`. -/
  processed : Finset RoundId := ∅
  /-- The rounds whose predictions `onGameEnd` has taken. -/
  settled : Finset RoundId := ∅
  announced : List Announcement := []
  /-- The Ends that came by the socket, and from the poll worker. -/
  packets : List RoundId := []
  polled : List RoundId := []
  /-- The Ends that the router put into the validation queue. -/
  queued : List RoundId := []
  /-- All entries that were made in `history_`. -/
  entries : List GameId := []

structure State where
  validator : LiveValidator := {}
  targets : TargetCoordinator := {}
  durableTx : DurablePredictionTx
  router : EventRouter
  history : RollingHistoryBuffer := { capacity := 200 }
  client : InProcessPredictionClient := {}
  calls : List Call := []
  log : Log := {}

def initial (durableTx : DurablePredictionTx) (eventQueueCapacity : Nat) : State :=
  { durableTx, router := .new eventQueueCapacity }

/-! ### What the stages share -/

def goOn (s : State) (c : Call) (stage : Stage) : State := { s with calls := { c with stage } :: s.calls.erase c }

def leave (s : State) (c : Call) : State := { s with calls := s.calls.erase c }

/-- The end of `onRoundEnd`. -/
def roundEndDone (s : State) (c : Call) : State := if c.source = .poll then goOn s c .routing else leave s c

def pushHistory (s : State) (e : CrashEvent) (now : TimestampMs) : State :=
  { s with
    history := s.history.pushFromEvent e now
    log := { s.log with entries := s.log.entries ++ [(RollingHistoryBuffer.entry e now).gameId] } }

def process (s : State) (roundId : RoundId) : State :=
  { s with log := { s.log with processed := insert roundId s.log.processed } }

def announce (s : State) (roundId : RoundId) : State :=
  { s with log := { s.log with announced := s.log.announced ++ [⟨roundId, decide (roundId ∈ s.log.processed)⟩] } }

def setRegistry (s : State) (registry : PredictionRegistry) : State := { s with validator := { s.validator with registry } }

def route (s : State) (e : CrashEvent) (t0 : Int) : State :=
  { s with
    router := (s.router.route e t0).1
    log := { s.log with queued := if s.router.Refuses e then s.log.queued else s.log.queued ++ [e.endedRound] } }

/-- The response of the engine to the request after the End. -/
def answer (e : CrashEvent) (resp : PredictionResponse) : PredictionResponse :=
  { resp with targetRoundId := nextRoundId e.endedRound, valid := true }

/-! ### The steps -/

/-- A call goes through its stage. `resp` is what the engine says in `submit`, `f` are the faults of the transaction,
    `t0` and `now` the clocks. -/
def advance (persistent : Bool) (s : State) (c : Call) (resp : PredictionResponse) (now : TimestampMs) (t0 : Int)
    (f : Faults) : State :=
  let round := c.event.endedRound
  match c.stage with
  | .routed => leave (pushHistory s c.event now) c
  | .popped => goOn (pushHistory s c.event now) c .settling
  | .settling =>
    let (validator, fresh) := s.validator.acceptEnd round
    goOn (process { s with validator } round) c (if fresh then .taking else .observing)
  | .taking =>
    let s := setRegistry s (s.validator.registry.takeForRound round).2
    goOn { s with log := { s.log with settled := insert round s.log.settled } } c .observing
  | .observing => goOn (process { s with client := s.client.observeEnd c.event now } round) c .submitting
  | .submitting =>
    let s := { s with client := s.client.warmUp }
    if isActionable (answer c.event resp) then goOn s c (.handling (answer c.event resp)) else roundEndDone s c
  | .handling resp =>
    let pev := fromResponse resp resp.targetRoundId 0 now
    match s.validator.registry.registerPrediction pev with
    | (registry, .error _) => goOn (setRegistry s registry) c (.coordinating resp)
    | (registry, .ok _) =>
      let targets := (s.targets.claim resp.targetRoundId pev.predictionId now).1.markPredicted resp.targetRoundId
      goOn (announce { setRegistry s registry with targets } resp.targetRoundId) c (.publishing resp pev)
  | .publishing resp pev =>
    let (durableTx, published) := s.durableTx.publish persistent pev (signalFromPrediction pev now) now f
    let targets := if published then s.targets else (s.targets.release resp.targetRoundId).1
    goOn (announce { s with durableTx, targets } pev.targetRoundId) c (.coordinating resp)
  | .coordinating resp =>
    let pev := fromResponse resp c.event.gameId c.event.crashPoint now
    match s.validator.registry.registerPrediction pev with
    | (registry, .error _) => roundEndDone (setRegistry s registry) c
    | (registry, .ok _) => goOn (announce (setRegistry s registry) pev.targetRoundId) c (.handingOff pev)
  | .handingOff pev =>
    let (durableTx, _) := s.durableTx.publishMemory (signalFromPrediction pev now) now
    roundEndDone (announce { s with durableTx } pev.targetRoundId) c
  | .routing => leave (route s c.event t0) c

inductive Act
  | packet (e : CrashEvent) (t0 : Int)
  | poll (fr : FetchedRound) (now : TimestampMs)
  | popValidation
  | popPrediction
  | advance (c : Call) (resp : PredictionResponse) (now : TimestampMs) (t0 : Int) (f : Faults)
  | expireStale (maxAgeMs : Int) (now : TimestampMs)
  /-- What the outcome handler, the workers and other components do to the targets, the outbox and the database. -/
  | outside (targets : TargetCoordinator) (durableTx : DurablePredictionTx)

def step (persistent : Bool) (s : State) : Act → Option State
  | .packet e t0 =>
    if e.EndsRound then
      let s := route s e t0
      some { s with
        calls := ⟨.socket, e, .routed⟩ :: s.calls
        log := { s.log with packets := s.log.packets ++ [e.endedRound] } }
    else none
  | .poll fr now =>
    let s := pushHistory s fr.event now
    some { s with
      calls := ⟨.poll, fr.event, .observing⟩ :: s.calls
      log := { s.log with polled := s.log.polled ++ [fr.gameId] } }
  | .popValidation =>
    s.router.popValidation.map fun (e, router) => { s with router, calls := ⟨.main, e, .popped⟩ :: s.calls }
  | .popPrediction => s.router.popPrediction.map fun (_, router) => { s with router }
  | .advance c resp now t0 f => if c ∈ s.calls then some (advance persistent s c resp now t0 f) else none
  | .expireStale maxAgeMs now => some (setRegistry s (s.validator.registry.expireStale maxAgeMs now))
  | .outside targets durableTx => some { s with targets, durableTx }

/-! ### The response handler -/

/-- What the response handler works on. -/
def State.app (s : State) : Application := { registry := s.validator.registry, targets := s.targets, durableTx := s.durableTx }

/-- When no other step comes between them, the two stages of the response handler do what the handler does. -/
theorem advance_handler (persistent : Bool) (s : State) (c : Call) (resp resp' : PredictionResponse) (now : TimestampMs)
    (t0 : Int) (f : Faults) (hact : isActionable resp)
    (hacc : s.validator.registry.Accepts (fromResponse resp resp.targetRoundId 0 now)) :
    (advance persistent (advance persistent s { c with stage := .handling resp } resp' now t0 f)
      { c with stage := .publishing resp (fromResponse resp resp.targetRoundId 0 now) } resp' now t0 f).app =
      (Application.handleResponse persistent s.app resp now f).1 := by
  simp only [Application.handleResponse, hact, not_true_eq_false, ↓reduceIte, State.app, advance,
    PredictionRegistry.registerPrediction_of_accepts hacc]
  rfl

end RoundEnds
end CrashCore
