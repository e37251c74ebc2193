import CrashCore.Application.Handlers
import CrashCore.PredictionInterface.NextRoundCalls

/-! `N1Coordinator::onRoundEnd` (`prediction_interface/n1_coordinator.hpp`) in the application. The poll thread and
`drainQueues` call it side by side on one client. The poll thread may do so before the application has called
`setResponseHandler`; from then on `submit` calls the response handler, and between any two stages of a call the other
thread may do anything. The application sets no `on_published_`, and `submit` of this client always succeeds, so
`failures_` is left out. -/

namespace CrashCore

structure N1Coordinator where
  n1Attempts : Nat := 0
  actionable : Nat := 0
  skipped : Nat := 0
  registered : Nat := 0

namespace NextRounds
open NextRoundCalls (Caller)

inductive Stage
  | idle
  /-- In `predictNextAfterEnd`, outside the response handler. -/
  | calling (e : CrashEvent)
  /-- In the response handler: at the registration, and at the publication. -/
  | handling (e : CrashEvent) (resp : PredictionResponse)
  | publishing (e : CrashEvent) (resp : PredictionResponse) (pev : PredictionEvent)
  /-- Back in `onRoundEnd`: at its own registration, and at its own publication. -/
  | coordinating (e : CrashEvent) (resp : PredictionResponse)
  | handingOff (pev : PredictionEvent)

structure State where
  client : NextRoundCalls.State := {}
  app : Application
  /-- The response handler is set. -/
  handler : Bool := false
  stage : Caller → Stage := fun _ => .idle
  n1 : N1Coordinator := {}
  /-- Bookkeeping: the calls with a valid End, and the publications by the coordinator. -/
  ends : Nat := 0
  handedOff : Nat := 0

inductive Act
  | setResponseHandler
  | begin (caller : Caller) (e : CrashEvent) (now requestTimeMs : TimestampMs) (requestNs : Int)
  | predict (caller : Caller) (responseTimeMs : TimestampMs)
  | answer (caller : Caller) (adaptive : Option AdaptiveEdge)
  | store (caller : Caller)
  | handle (caller : Caller) (now : TimestampMs)
  | publish (caller : Caller) (now : TimestampMs) (f : Faults)
  | poll (caller : Caller)
  | fallback (caller : Caller)
  | coordinate (caller : Caller) (now : TimestampMs)
  | handOff (caller : Caller) (now : TimestampMs)
  /-- What other components do to the registry, the targets, the outbox and the database. -/
  | outside (app : Application)

def setStage (s : State) (caller : Caller) (stage : Stage) : State := { s with stage := Function.update s.stage caller stage }

/-- `predictNextAfterEnd` has returned `resp`. -/
def returned (s : State) (caller : Caller) (e : CrashEvent) (resp : PredictionResponse) : State :=
  let n1 := { s.n1 with n1Attempts := s.n1.n1Attempts + 1 }
  if isActionable resp then { setStage s caller (.coordinating e resp) with n1 }
  else { setStage s caller .idle with n1 := { n1 with skipped := n1.skipped + 1 } }

variable (persistent : Bool) (engine : PredictionEngine) (options : ClientOptions)

def step (s : State) : Act → Option State
  | .setResponseHandler => some { s with handler := true }
  | .begin caller e now requestTimeMs requestNs =>
    match s.stage caller with
    | .idle =>
      -- `N1 requires valid End event`
      if ¬e.IsValidEnd then some s
      else (NextRoundCalls.step engine options s.client (.begin caller e now requestTimeMs requestNs)).map fun client =>
        { setStage s caller (.calling e) with client, ends := s.ends + 1 }
    | _ => none
  | .predict caller responseTimeMs =>
    (NextRoundCalls.step engine options s.client (.predict caller responseTimeMs)).map fun client => { s with client }
  | .answer caller adaptive =>
    (NextRoundCalls.step engine options s.client (.answer caller adaptive)).map fun client => { s with client }
  | .store caller =>
    match s.stage caller, s.client.phase caller with
    | .calling e, .answered _ own => (NextRoundCalls.step engine options s.client (.store caller)).map fun client =>
      if s.handler ∧ isActionable own.response then { setStage s caller (.handling e own.response) with client }
      else { s with client }
    | _, _ => none
  | .handle caller now =>
    match s.stage caller with
    | .handling e resp =>
      let pev := fromResponse resp resp.targetRoundId 0 now
      match s.app.registry.registerPrediction pev with
      | (registry, .error _) => some { setStage s caller (.calling e) with app := { s.app with registry } }
      | (registry, .ok _) =>
        let targets := (s.app.targets.claim resp.targetRoundId pev.predictionId now).1.markPredicted resp.targetRoundId
        some { setStage s caller (.publishing e resp pev) with app := { s.app with registry, targets } }
    | _ => none
  | .publish caller now f =>
    match s.stage caller with
    | .publishing e resp pev =>
      let (durableTx, published) := s.app.durableTx.publish persistent pev (signalFromPrediction pev now) now f
      let targets := if published then s.app.targets else (s.app.targets.release resp.targetRoundId).1
      some { setStage s caller (.calling e) with app := { s.app with targets, durableTx } }
    | _ => none
  | .poll caller =>
    match s.stage caller, s.client.phase caller with
    | .calling e, .waiting req _ => (NextRoundCalls.step engine options s.client (.poll caller)).map fun client =>
      match s.client.pending req.correlationId with
      | some got => returned { s with client } caller e got.response
      | none => { s with client }
    | _, _ => none
  | .fallback caller =>
    match s.stage caller with
    | .calling e => (NextRoundCalls.step engine options s.client (.fallback caller)).map fun client =>
      returned { s with client } caller e s.client.last.response
    | _ => none
  | .coordinate caller now =>
    match s.stage caller with
    | .coordinating e resp =>
      let pev := fromResponse resp e.gameId e.crashPoint now
      match s.app.registry.registerPrediction pev with
      | (registry, .error _) => some { setStage s caller .idle with
          app := { s.app with registry }
          n1 := { s.n1 with actionable := s.n1.actionable + 1 } }
      | (registry, .ok _) => some { setStage s caller (.handingOff pev) with
          app := { s.app with registry }
          n1 := { s.n1 with registered := s.n1.registered + 1 } }
    | _ => none
  | .handOff caller now =>
    match s.stage caller with
    | .handingOff pev =>
      let (durableTx, _) := s.app.durableTx.publishMemory (signalFromPrediction pev now) now
      some { setStage s caller .idle with
        app := { s.app with durableTx }
        n1 := { s.n1 with actionable := s.n1.actionable + 1 }
        handedOff := s.handedOff + 1 }
    | _ => none
  | .outside app => some { s with app }

/-- When no other step comes between them, the two stages of the response handler do what the handler does. -/
theorem handler_alone {s : State} {caller : Caller} {e : CrashEvent} {resp : PredictionResponse}
    (hstage : s.stage caller = .handling e resp) (hact : isActionable resp) (now : TimestampMs) (f : Faults)
    (hacc : s.app.registry.Accepts (fromResponse resp resp.targetRoundId 0 now)) :
    (Transition.run (step persistent engine options) s [.handle caller now, .publish caller now f]).map (·.app) =
      some (Application.handleResponse persistent s.app resp now f).1 := by
  simp only [Transition.run, step, hstage, PredictionRegistry.registerPrediction_of_accepts hacc, Option.bind_some,
    setStage, Function.update_self, Option.map_some, Application.handleResponse, hact, not_true_eq_false, ↓reduceIte]

end NextRounds
end CrashCore
